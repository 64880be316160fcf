import Calculator.Decimal.Shortest
import Calculator.Proofs.Decimal.Numeral
import Calculator.Proofs.Decimal.Pattern

/-!
# Shortest decimals read back

`shortest` tries grids of decimals and takes a point only when it reads back, and all
digits of a double are read back exactly. So whatever text it settles on is a numeral,
behind a sign, that is read as the same double.
-/

namespace Calculator.Decimal

/-! ## Positional texts -/

theorem isDigit_of_mem_ofNat {n : Nat} : ∀ c ∈ Text.ofNat n, c.isDigit = true :=
  fun _ hc => Nat.isDigit_of_mem_toDigits (by decide) (by decide) hc

theorem isDigit_of_mem_leftpad {n k : Nat} :
    ∀ c ∈ (Text.ofNat k).leftpad n '0', c.isDigit = true := by
  intro c hc
  rw [List.leftpad, List.mem_append] at hc
  rcases hc with hc | hc
  · rw [List.eq_of_mem_replicate hc]; rfl
  · exact isDigit_of_mem_ofNat c hc

theorem length_leftpad_ofNat {n k : Nat} (hn : 0 < n) (hk : k < pow10 n) :
    ((Text.ofNat k).leftpad n '0').length = n := by
  have hlen : (Text.ofNat k).length ≤ n := (Nat.length_toDigits_le_iff (by decide) hn).mpr hk
  rw [List.length_leftpad, Nat.max_eq_left hlen]

theorem ofDigitChars_leftpad_ofNat {n k : Nat} (hn : 0 < n) (hk : k < pow10 n) (high : Nat) :
    Nat.ofDigitChars 10 ((Text.ofNat k).leftpad n '0') high = pow10 n * high + k := by
  have hzero : Nat.ofDigitChars 10 ((Text.ofNat k).leftpad n '0') 0 = k := by
    rw [List.leftpad, Nat.ofDigitChars_append, Nat.ofDigitChars_replicate_zero, Nat.mul_zero]
    exact Nat.ofDigitChars_ten_toDigits
  rw [Nat.ofDigitChars_eq_ofDigitChars_zero, hzero, length_leftpad_ofNat hn hk]
  rfl

theorem readFraction?_fixed (places k : Nat) :
    readFraction? (fixed places k) = some (k, pow10 places) := by
  unfold fixed
  split
  · rename_i h
    rw [h, readFraction?_whole isDigit_of_mem_ofNat Nat.toDigits_ne_nil]
    exact congrArg (fun n => some (n, pow10 0)) Nat.ofDigitChars_ten_toDigits
  · rename_i h
    have hpos := Nat.pos_of_ne_zero h
    have hlt : k % pow10 places < pow10 places := Nat.mod_lt _ (pow10_pos places)
    have hvalue : Nat.ofDigitChars 10 (Text.ofNat (k / pow10 places)) 0 = k / pow10 places :=
      Nat.ofDigitChars_ten_toDigits
    rw [readFraction?_point isDigit_of_mem_ofNat isDigit_of_mem_leftpad
        (List.append_ne_nil_of_left_ne_nil Nat.toDigits_ne_nil _),
      Nat.ofDigitChars_append, hvalue, ofDigitChars_leftpad_ofNat hpos hlt, Nat.div_add_mod,
      length_leftpad_ofNat hpos hlt]

/-! ## Doubles of exact values -/

theorem log2_unitsOfBits (bits : Nat) : (unitsOfBits bits).log2 - 52 = bits / binade - 1 := by
  rw [unitsOfBits, binade_eq]
  by_cases hsmall : bits < 2 ^ 53
  · have hscale : bits / 2 ^ 52 - 1 = 0 := by omega
    have hlog : bits.log2 < 53 := by
      by_cases h0 : bits = 0
      · rw [h0]; decide
      · exact (Nat.log2_lt h0).mpr hsmall
    simp only [hscale, Nat.zero_mul, Nat.sub_zero]
    rw [show pow2 0 = 1 from rfl, Nat.mul_one]
    omega
  · obtain ⟨scale, hscale⟩ : ∃ scale, bits / 2 ^ 52 - 1 = scale := ⟨_, rfl⟩
    obtain ⟨m, hm⟩ : ∃ m, bits - scale * 2 ^ 52 = m := ⟨_, rfl⟩
    have hlow : 2 ^ 52 ≤ m := by omega
    have hhigh : m < 2 ^ 53 := by omega
    have hne : m * 2 ^ scale ≠ 0 :=
      Nat.mul_ne_zero (by omega) (Nat.pos_iff_ne_zero.mp (Nat.two_pow_pos scale))
    have hlog : (m * 2 ^ scale).log2 = 52 + scale := by
      rw [Nat.log2_eq_iff hne]
      constructor
      · rw [Nat.pow_add]
        exact Nat.mul_le_mul_right _ hlow
      · rw [Nat.add_right_comm, Nat.pow_add]
        exact Nat.mul_lt_mul_of_pos_right hhigh (Nat.two_pow_pos scale)
    simp only [hscale, hm]
    show (m * 2 ^ scale).log2 - 52 = scale
    omega

theorem nearestBits_of_exact {num den bits : Nat} (hden : 0 < den) (hb : bits < infinityBits)
    (h : num * unitsPerOne = unitsOfBits bits * den) : nearestBits num den = bits := by
  have hlog := log2_unitsOfBits bits
  have hround : roundEven (unitsOfBits bits * den) (den * pow2 (bits / binade - 1)) =
      bits - (bits / binade - 1) * binade := by
    have hmul : unitsOfBits bits * den =
        (bits - (bits / binade - 1) * binade) * (den * pow2 (bits / binade - 1)) := by
      rw [unitsOfBits, Nat.mul_assoc, Nat.mul_comm den]
    rw [hmul, roundEven_mul_left _ (Nat.mul_pos hden (pow2_pos _))]
  unfold nearestBits
  simp only [h, Nat.mul_div_cancel _ hden, hlog, hround]
  rw [binade_eq]
  omega

theorem nearestBits_le (num den : Nat) : nearestBits num den ≤ infinityBits :=
  Nat.min_le_right _ _

/-! ## Reading back -/

theorem nearestBits_of_gridPoint? {bits k : Nat} {e : Int} (h : gridPoint? bits e = some k) :
    nearestBits (k * pow10 e.toNat) (pow10 (-e).toNat) = bits := by
  rw [gridPoint?] at h
  have hreads := of_pick? (p := (readsBack bits · e)) h
  rwa [readsBack, beq_iff_eq] at hreads

theorem readFraction?_positional (k : Nat) (e : Int) :
    readFraction? (positional k e) = some (k * pow10 e.toNat, pow10 (-e).toNat) := by
  rw [positional, readFraction?_fixed]

theorem readFraction?_exactDigits (units : Nat) :
    readFraction? (exactDigits units) = some (units * pow10 1074 / unitsPerOne, pow10 1074) := by
  rw [exactDigits, readFraction?_fixed]

theorem div_pow2_mul (units n : Nat) : units * pow10 n / pow2 n * pow2 n = units * pow10 n := by
  have hdvd : pow2 n ∣ pow10 n := pow_dvd_pow_of_dvd (by decide : 2 ∣ 10) n
  exact Nat.div_mul_cancel (Nat.dvd_mul_left_of_dvd hdvd units)

theorem shortestOfBits_cases {bits : Nat} (h0 : bits ≠ 0) :
    (∃ k e, gridPoint? bits e = some k ∧ shortestOfBits bits = positional k e) ∨
      shortestOfBits bits = exactDigits (unitsOfBits bits) := by
  rw [shortestOfBits, if_neg h0]
  extract_lets top found
  cases hf : found with
  | none => exact .inr (Option.getD_none ..)
  | some text =>
    obtain ⟨n, -, hn⟩ := List.exists_of_findSome?_eq_some hf
    obtain ⟨k, hk, rfl⟩ := Option.map_eq_some_iff.mp hn
    exact .inl ⟨k, _, hk, Option.getD_some ..⟩

/-- The text found for a pattern is a numeral whose nearest double has that pattern. -/
theorem readFraction?_shortestOfBits {bits : Nat} (hb : bits < infinityBits) :
    ∃ num den, readFraction? (shortestOfBits bits) = some (num, den) ∧
      nearestBits num den = bits := by
  by_cases h0 : bits = 0
  · subst h0
    refine ⟨0, 1, rfl, nearestBits_of_exact Nat.one_pos hb ?_⟩
    rw [Nat.zero_mul, Nat.mul_one, unitsOfBits, Nat.zero_sub, Nat.zero_mul]
  rcases shortestOfBits_cases h0 with ⟨k, e, hk, htext⟩ | htext
  · exact ⟨_, _, htext ▸ readFraction?_positional k e, nearestBits_of_gridPoint? hk⟩
  · refine ⟨_, _, htext ▸ readFraction?_exactDigits _, ?_⟩
    refine nearestBits_of_exact (pow10_pos 1074) hb ?_
    rw [unitsPerOne, div_pow2_mul]

theorem readDouble?_shortestOfBits (negative : Bool) {bits : Nat} (hb : bits < infinityBits) :
    readDouble? negative (shortestOfBits bits) = some (doubleOfBits negative bits) := by
  obtain ⟨num, den, hr, hn⟩ := readFraction?_shortestOfBits hb
  rw [readDouble?, hr, Option.map_some, nearestDouble, hn]

/-- The digits of a finite double read back as that double, behind its sign. -/
theorem readDouble?_shortest {x : Float} (hx : x.isFinite = true) :
    ∃ run, shortest x = signText (isNegative x) ++ run ∧
      readDouble? (isNegative x) run = some x := by
  have hb := (isFinite_iff x).mp hx
  refine ⟨shortestOfBits (magnitudeBits x), ?_, ?_⟩
  · simp only [shortest, hb, ↓reduceIte]
  · rw [readDouble?_shortestOfBits _ hb, doubleOfBits_self]

theorem isNegative_of_readDouble? {negative : Bool} {run : Text} {x : Float}
    (h : readDouble? negative run = some x) : isNegative x = negative := by
  obtain ⟨r, -, rfl⟩ := Option.map_eq_some_iff.mp h
  exact isNegative_doubleOfBits negative (nearestBits_le _ _)

/-- The text of a double that is not finite holds a letter no expression is made of. -/
theorem mem_shortest_of_not_isFinite {x : Float} (hx : x.isFinite = false) :
    'n' ∈ shortest x ∨ 'N' ∈ shortest x := by
  have hb : ¬ magnitudeBits x < infinityBits := by
    rw [← isFinite_iff, hx]
    exact Bool.false_ne_true
  simp only [shortest, hb, ↓reduceIte]
  split
  · exact .inl (List.mem_append_right _ (by decide))
  · exact .inr (by decide)

end Calculator.Decimal
