import Calculator.Proofs.Decimal.ExactValue
import Calculator.Proofs.Decimal.ReadBack

/-!
# Decimal texts as rationals

A decimal text is a numeral behind a sign, with a power of ten behind an `e` if it has one.
`written?` is the rational it denotes. Zeros at the end of the places of a numeral, and a
point with no places, can be left out.
-/

namespace Calculator.Decimal

/-! ## Reading -/

/-- The sign of a text, as a factor, and what is behind it. -/
def splitSign (text : Text) : ℤ × Text :=
  if text.head? = some '-' then (-1, text.tail) else (1, text)

def readNat? (run : Text) : Option Nat :=
  if run ≠ [] ∧ run.all Char.isDigit then some (Nat.ofDigitChars 10 run 0) else none

/-- The power of ten that a text ends in; zero without an `e`. -/
def readExponent? (tail : Text) : Option ℤ :=
  if tail = [] then some 0
  else
    let (sign, run) := splitSign tail.tail
    (readNat? run).map fun (n : Nat) => sign * (n : ℤ)

/-- The rational that a decimal text denotes. -/
def written? (text : Text) : Option ℚ := do
  let (sign, run) := splitSign text
  let (num, den) ← readFraction? (run.takeWhile (· != 'e'))
  let e ← readExponent? (run.dropWhile (· != 'e'))
  some (sign * (num / den) * 10 ^ e)

theorem splitSign_signText (negative : Bool) {run : Text} (h : ∀ c ∈ run.head?, c ≠ '-') :
    splitSign (signText negative ++ run) = (signFactor negative, run) := by
  cases negative with
  | true => rfl
  | false => exact if_neg fun hhead => h '-' hhead rfl

theorem readNat?_ofNat (n : Nat) : readNat? (Text.ofNat n) = some n := by
  rw [readNat?, if_pos ⟨Nat.toDigits_ne_nil, List.all_eq_true.mpr isDigit_of_mem_ofNat⟩]
  exact congrArg some Nat.ofDigitChars_ten_toDigits

theorem readExponent?_intText (e : ℤ) : readExponent? ('e' :: intText e) = some e := by
  have hhead : ∀ c ∈ (Text.ofNat e.natAbs).head?, c ≠ '-' := by
    rintro c hc rfl
    cases isDigit_of_mem_ofNat _ (List.mem_of_mem_head? hc)
  rw [readExponent?, if_neg (List.cons_ne_nil _ _), List.tail_cons, intText,
    splitSign_signText _ hhead]
  simp only [readNat?_ofNat, Option.map_some, signFactor, decide_eq_true_eq, Option.some.injEq]
  split <;> omega

theorem written?_append (negative : Bool) {run tail : Text} {num den : Nat} {e : ℤ}
    (hr : readFraction? run = some (num, den)) (htail : ∀ c ∈ tail.head?, c = 'e')
    (he : readExponent? tail = some e) :
    written? (signText negative ++ (run ++ tail)) =
      some ((signFactor negative : ℚ) * (num / den) * 10 ^ e) := by
  obtain ⟨hall, hany, -⟩ := isNumeral_of_readFraction? hr
  have hchar {c : Char} (hc : c ∈ run) : c ≠ '-' ∧ c ≠ 'e' := by
    have := List.all_eq_true.mp hall c hc
    constructor <;> rintro rfl <;> cases this
  have hhead : ∀ c ∈ (run ++ tail).head?, c ≠ '-' := by
    obtain ⟨d, hd, -⟩ := List.any_eq_true.mp hany
    rw [List.head?_append_of_ne_nil _ (List.ne_nil_of_mem hd)]
    exact fun c hc => (hchar (List.mem_of_mem_head? hc)).1
  have hrun : ∀ c ∈ run, (c != 'e') = true := fun c hc => bne_iff_ne.mpr (hchar hc).2
  have hstop : ∀ c ∈ tail.head?, (c != 'e') = false := by
    intro c hc
    rw [htail c hc]
    rfl
  rw [written?, splitSign_signText negative hhead]
  simp only [Runs.takeWhile_append hrun hstop, Runs.dropWhile_append hrun hstop, hr, he]
  rfl

/-! ## Trimmed numerals -/

/-- A whole number, with a point and places behind it if there are any. -/
def pointed (n : Nat) (places : Text) : Text :=
  Text.ofNat n ++ if places = [] then [] else '.' :: places

/-- Digits that do not end in a zero. -/
structure Places (places : Text) : Prop where
  digits : ∀ c ∈ places, c.isDigit = true
  last : ∀ c ∈ places.getLast?, c ≠ '0'

theorem readFraction?_pointed (n : Nat) {places : Text} (h : Places places) :
    readFraction? (pointed n places) =
      some (Nat.ofDigitChars 10 places n, pow10 places.length) := by
  have hn : Nat.ofDigitChars 10 (Text.ofNat n) 0 = n := Nat.ofDigitChars_ten_toDigits
  unfold pointed
  split
  · rename_i hnil
    rw [hnil, List.append_nil, readFraction?_whole isDigit_of_mem_ofNat Nat.toDigits_ne_nil, hn]
    rfl
  · rw [readFraction?_point isDigit_of_mem_ofNat h.digits
      (List.append_ne_nil_of_left_ne_nil Nat.toDigits_ne_nil _), Nat.ofDigitChars_append, hn]

theorem exists_trailing_zeros (digits : Text) :
    ∃ shown zeros, digits = shown ++ List.replicate zeros '0' ∧ ∀ c ∈ shown.getLast?, c ≠ '0' := by
  refine ⟨digits.rdropWhile (· == '0'), (digits.rtakeWhile (· == '0')).length, ?_, ?_⟩
  · have hall : digits.rtakeWhile (· == '0') = List.replicate _ '0' :=
      List.eq_replicate_iff.mpr ⟨rfl, fun c hc => by simpa using List.mem_rtakeWhile_imp hc⟩
    rw [← hall, List.rdropWhile_append_rtakeWhile]
  · intro c hc
    obtain ⟨hne, rfl⟩ := List.mem_getLast?_eq_getLast hc
    simpa using List.rdropWhile_last_not (· == '0') digits hne

theorem trim_zeros {front shown : Text} (hfront : ∀ c ∈ front.getLast?, c ≠ '.')
    (hshown : Places shown) (zeros : Nat) :
    Text.dropEndWhile (· == '.')
        (Text.dropEndWhile (· == '0') (front ++ '.' :: (shown ++ List.replicate zeros '0'))) =
      front ++ if shown = [] then [] else '.' :: shown := by
  have hzeros : ∀ c ∈ List.replicate zeros '0', (c == '0') = true := by
    intro c hc
    rw [List.eq_of_mem_replicate hc]
    rfl
  rw [← List.cons_append, ← List.append_assoc, Text.dropEndWhile_append_of_pos hzeros]
  split
  · rename_i hnil
    have hpoint : ∀ c ∈ (front ++ ['.']).getLast?, (c == '0') = false := by
      intro c hc
      rw [List.getLast?_concat] at hc
      cases hc
      rfl
    have hdropped : ∀ c ∈ ['.'], (c == '.') = true := by simp
    rw [hnil, List.append_nil, Text.dropEndWhile_of_neg hpoint,
      Text.dropEndWhile_append_of_pos hdropped]
    exact Text.dropEndWhile_of_neg fun c hc => beq_false_of_ne (hfront c hc)
  · rename_i hne
    have hlast : (front ++ '.' :: shown).getLast? = shown.getLast? := by
      rw [List.append_cons, List.getLast?_append_of_ne_nil _ hne]
    rw [Text.dropEndWhile_of_neg (p := (· == '0')), Text.dropEndWhile_of_neg]
    · intro c hc
      rw [hlast] at hc
      exact beq_false_of_ne (isDigit_ne_point (hshown.digits c (List.mem_of_mem_getLast? hc)))
    · intro c hc
      rw [hlast] at hc
      exact beq_false_of_ne (hshown.last c hc)

/-- Without the zeros at its end, and without the point when no places are left, a text
shows the same. -/
theorem exists_trimmed {places : Nat} (hpos : 0 < places) (k : Nat) :
    ∃ shown zeros, Places shown ∧ shown.length + zeros = places ∧
      Text.dropEndWhile (· == '.') (Text.dropEndWhile (· == '0') (fixed places k)) =
        pointed (k / pow10 places) shown ∧
      Nat.ofDigitChars 10 shown (k / pow10 places) * pow10 zeros = k := by
  have hlt : k % pow10 places < pow10 places := Nat.mod_lt _ (pow10_pos places)
  obtain ⟨padded, hpadded⟩ :
      ∃ padded, (Text.ofNat (k % pow10 places)).leftpad places '0' = padded := ⟨_, rfl⟩
  have hdigits : ∀ c ∈ padded, c.isDigit = true := hpadded ▸ isDigit_of_mem_leftpad
  have hlength : padded.length = places := hpadded ▸ length_leftpad_ofNat hpos hlt
  have hvalue : Nat.ofDigitChars 10 padded (k / pow10 places) = k := by
    rw [← hpadded, ofDigitChars_leftpad_ofNat hpos hlt, Nat.div_add_mod]
  -- the zeros at the end of the places
  obtain ⟨shown, zeros, rfl, hlast⟩ := exists_trailing_zeros padded
  have hshown : Places shown := ⟨fun c hc => hdigits c (List.mem_append_left _ hc), hlast⟩
  have hfront : ∀ c ∈ (Text.ofNat (k / pow10 places)).getLast?, c ≠ '.' := fun c hc =>
    isDigit_ne_point (isDigit_of_mem_ofNat c (List.mem_of_mem_getLast? hc))
  refine ⟨shown, zeros, hshown, ?_, ?_, ?_⟩
  · rwa [List.length_append, List.length_replicate] at hlength
  · rw [fixed, if_neg hpos.ne', hpadded]
    exact trim_zeros hfront hshown zeros
  · rw [Nat.ofDigitChars_append, Nat.ofDigitChars_replicate_zero] at hvalue
    exact (Nat.mul_comm _ _).trans hvalue

end Calculator.Decimal
