import Calculator.Calculation
import Calculator.Proofs.Decimal.ReadBack
import Calculator.Proofs.Postfix.Tracing
import Calculator.Proofs.Token.Lexing

/-!
# Rendered tokens read back

A sequence of tokens is rendered as their texts with a space between each two. No text is empty
or holds a space, so the texts come back by cutting at the spaces, and each text is that of one
token: a number starts with a digit, a point or the `i` of an infinity, behind a sign if it has
one, which a bare minus does not. So `ofRendered?` reads every sequence back in which each number
is one, and the rendered postfix form tells what was evaluated.
-/

namespace Calculator

/-! ## Numbers -/

namespace Decimal

open Token (IsNumeral)

/-- The double of a run of digits and points, or infinity, with a sign. -/
def readMagnitude? (negative : Bool) (run : Text) : Option Float :=
  if run = "inf".toList then some (doubleOfBits negative infinityBits)
  else readDouble? negative run

/-- The double that a text is written for. -/
def readShortest? (text : Text) : Option Float :=
  if text.head? = some '-' then readMagnitude? true text.tail else readMagnitude? false text

/-- What is written for a double: a numeral or infinity behind the sign. -/
theorem shortest_cases {x : Float} (hx : x.isNaN = false) :
    ∃ run, shortest x = signText (isNegative x) ++ run ∧
      (IsNumeral run ∨ run = "inf".toList) ∧ readMagnitude? (isNegative x) run = some x := by
  have hle : magnitudeBits x ≤ infinityBits := by
    rw [← Nat.not_lt, ← isNaN_iff, hx]
    exact Bool.false_ne_true
  by_cases hfinite : x.isFinite = true
  · obtain ⟨run, htext, hread⟩ := readDouble?_shortest hfinite
    have hnumeral : IsNumeral run :=
      (readDouble?_isSome_iff _ run).mp (Option.isSome_iff_exists.mpr ⟨x, hread⟩)
    have hne : run ≠ "inf".toList := by
      rintro rfl
      cases hnumeral.1
    exact ⟨run, htext, .inl hnumeral, (if_neg hne).trans hread⟩
  · -- Neither finite nor beyond infinity, so infinity itself.
    have hnot : ¬ magnitudeBits x < infinityBits := mt (isFinite_iff x).mpr hfinite
    have heq : magnitudeBits x = infinityBits := by omega
    refine ⟨"inf".toList, ?_, .inr rfl, (if_pos rfl).trans ?_⟩
    · rw [shortest, if_neg hnot, if_pos heq]
    · rw [← heq, doubleOfBits_self]

theorem readShortest?_signText (negative : Bool) {run : Text}
    (h : IsNumeral run ∨ run = "inf".toList) :
    readShortest? (signText negative ++ run) = readMagnitude? negative run := by
  cases negative with
  | true => rfl
  | false =>
    refine if_neg fun hhead => ?_
    rcases h with h | rfl
    · cases List.all_eq_true.mp h.1 '-' (List.mem_of_mem_head? hhead)
    · cases hhead

theorem readShortest?_shortest {x : Float} (hx : x.isNaN = false) :
    readShortest? (shortest x) = some x := by
  obtain ⟨run, htext, hrun, hread⟩ := shortest_cases hx
  rw [htext, readShortest?_signText _ hrun, hread]

theorem space_not_mem_shortest {x : Float} (hx : x.isNaN = false) : ' ' ∉ shortest x := by
  obtain ⟨run, htext, hrun, -⟩ := shortest_cases hx
  rw [htext, List.mem_append]
  rintro (hspace | hspace)
  · revert hspace
    cases isNegative x <;> decide
  · rcases hrun with hrun | rfl
    · cases List.all_eq_true.mp hrun.1 ' ' hspace
    · revert hspace
      decide

theorem isNaN_of_readDouble? {negative : Bool} {run : Text} {x : Float}
    (h : readDouble? negative run = some x) : x.isNaN = false := by
  obtain ⟨r, -, rfl⟩ := Option.map_eq_some_iff.mp h
  have hle := nearestBits_le r.1 r.2
  rw [Bool.eq_false_iff, ne_eq, isNaN_iff, nearestDouble, magnitudeBits_doubleOfBits negative hle]
  exact Nat.not_lt.mpr hle

end Decimal

namespace Token

open Decimal

/-! ## Single tokens -/

def isNaN : Token → Bool
  | number x => x.isNaN
  | _ => false

/-- The tokens that hold no double. -/
def marks : List Token := [.opening, .closing, .function .sqrt] ++ Operator.all.map .operator

/-- The token that a text is written for. -/
def ofText? (text : Text) : Option Token :=
  (readShortest? text).map .number <|> marks.find? (·.text = text)

variable {t : Token} {ts us : List Token}

theorem ofText?_text (h : t.isNaN = false) : ofText? t.text = some t := by
  cases t with
  | number x => rw [ofText?, text, readShortest?_shortest h]; rfl
  | operator op => cases op <;> rfl
  | function f => cases f; rfl
  | opening | closing => rfl

theorem text_ne_nil (h : t.isNaN = false) : t.text ≠ [] := by
  intro hnil
  have hread := ofText?_text h
  rw [hnil] at hread
  cases hread

theorem space_not_mem_text (h : t.isNaN = false) : ' ' ∉ t.text := by
  cases t with
  | number x => exact space_not_mem_shortest h
  | operator op => cases op <;> decide
  | function f => cases f; decide
  | opening | closing => decide

/-! ## Sequences -/

def NoNaN (ts : List Token) : Prop := ∀ t ∈ ts, t.isNaN = false

instance (ts : List Token) : Decidable (NoNaN ts) := inferInstanceAs (Decidable (∀ t ∈ ts, _))

/-- The tokens that a text is rendered from. -/
def ofRendered? (text : Text) : Option (List Token) :=
  if text = [] then some [] else (text.splitOn ' ').mapM ofText?

theorem mapM_ofText?_text (h : NoNaN ts) : (ts.map text).mapM ofText? = some ts := by
  induction ts with
  | nil => rfl
  | cons t ts ih =>
    rw [List.map_cons, List.mapM_cons, ofText?_text (h t List.mem_cons_self),
      ih fun u hu => h u (List.mem_cons_of_mem t hu)]
    rfl

theorem splitOn_render (h : NoNaN ts) (hne : ts ≠ []) : (render ts).splitOn ' ' = ts.map text := by
  have hspace : ∀ word ∈ ts.map text, ' ' ∉ word :=
    List.forall_mem_map.mpr fun t ht => space_not_mem_text (h t ht)
  exact List.splitOn_intercalate ' ' hspace (mt List.map_eq_nil_iff.mp hne)

theorem render_ne_nil (h : NoNaN ts) (hne : ts ≠ []) : render ts ≠ [] := by
  intro hempty
  have hsplit := splitOn_render h hne
  rw [hempty, List.splitOn_nil] at hsplit
  obtain ⟨t, ht, htext⟩ := List.mem_map.mp (hsplit ▸ List.mem_singleton_self [])
  exact text_ne_nil (h t ht) htext

theorem ofRendered?_render (h : NoNaN ts) : ofRendered? (render ts) = some ts := by
  by_cases hnil : ts = []
  · rw [hnil]
    rfl
  · rw [ofRendered?, if_neg (render_ne_nil h hnil), splitOn_render h hnil, mapM_ofText?_text h]

/-! ## Tokens that were read -/

theorem Lexeme.isNaN {awaiting : Bool} {lex rest : Text} (h : Lexeme awaiting lex t rest) :
    t.isNaN = false := by
  cases h with
  | number _ _ hx => exact isNaN_of_readDouble? hx
  | negative _ _ _ hx => exact isNaN_of_readDouble? hx
  | opening | closing | operator | function => rfl

theorem Reads.noNaN {awaiting : Bool} {text rest : Text} {pieces : List (Text × Token)}
    (h : Reads rest awaiting text pieces) : NoNaN (pieces.map Prod.snd) := by
  induction h with
  | done => exact fun t ht => absurd ht List.not_mem_nil
  | cons hl _ ih => exact List.forall_mem_cons.mpr ⟨hl.isNaN, ih⟩

/-- The postfix form of an expression has the tokens that were read. -/
theorem noNaN_of_ofText {expression : Text} (h : Postfix.ofText expression = .ok ts) :
    NoNaN ts := by
  obtain ⟨tokens, hscan, hinfix⟩ := EvalError.bind_eq_ok.mp h
  obtain ⟨-, pieces, hr, rfl⟩ := scan_eq_ok_iff.mp hscan
  -- Reordering drops the parentheses and makes no token of its own.
  intro t ht
  exact hr.noNaN t (List.mem_of_mem_filter ((Postfix.perm_of_ofInfix hinfix).mem_iff.mp ht))

/-! ## Rendered postfix forms -/

/-- In detailed mode the postfix form is noted, if there is one. -/
theorem postfixText_calculateTraced (expression : Text) :
    (calculateTraced expression { detailed := true }).2.postfixText =
      (Postfix.ofText expression).toOption.map render := by
  cases h : Postfix.ofText expression with
  | error err => rw [calculateTraced, h]; rfl
  | ok ts => rw [calculateTraced_of_ofText _ h]; rfl

theorem exists_of_postfixText {expression line : Text}
    (h : (calculateTraced expression { detailed := true }).2.postfixText = some line) :
    ∃ ts, Postfix.ofText expression = .ok ts ∧ NoNaN ts ∧ render ts = line := by
  rw [postfixText_calculateTraced] at h
  cases hts : Postfix.ofText expression with
  | error err =>
    rw [hts] at h
    cases h
  | ok ts =>
    rw [hts] at h
    exact ⟨ts, rfl, noNaN_of_ofText hts, Option.some.inj h⟩

theorem eq_of_render_eq (hts : NoNaN ts) (hus : NoNaN us) (h : render ts = render us) :
    ts = us := by
  have hread := ofRendered?_render hts
  rw [h, ofRendered?_render hus] at hread
  exact (Option.some.inj hread).symm

/-- Sequences that are rendered alike are the same token for token, their numbers bit for bit. So
two expressions for which detailed mode shows the same postfix form have the same one. -/
theorem render_determines_tokens (hts : NoNaN ts) (hus : NoNaN us) :
    (render ts = render us ↔ ts = us) ∧
    ∀ expression expression' line,
      (calculateTraced expression { detailed := true }).2.postfixText = some line →
      (calculateTraced expression' { detailed := true }).2.postfixText = some line →
      ∃ out, Postfix.ofText expression = .ok out ∧ Postfix.ofText expression' = .ok out := by
  refine ⟨⟨eq_of_render_eq hts hus, congrArg render⟩, fun expression expression' line h h' => ?_⟩
  obtain ⟨out, hout, hnoNaN, hline⟩ := exists_of_postfixText h
  obtain ⟨out', hout', hnoNaN', hline'⟩ := exists_of_postfixText h'
  have hsame : out = out' := eq_of_render_eq hnoNaN hnoNaN' (hline.trans hline'.symm)
  exact ⟨out, hout, hsame ▸ hout'⟩

/-- A bare minus behind signed numbers, and the two zeros. -/
theorem render_determines_zeros :
    let ts : List Token := [.number (-1 / 0), .number (-0.0), .operator .sub]
    let us : List Token := [.number (-1 / 0), .number 0.0, .operator .sub]
    NoNaN ts ∧ NoNaN us ∧ render ts = "-inf -0 -".toList ∧ render us = "-inf 0 -".toList ∧ ts ≠ us ∧
      (calculateTraced "-2--.50".toList { detailed := true }).2.postfixText =
        some "-2 -0.5 -".toList ∧
      ∃ out, Postfix.ofText "-2--.50".toList = .ok out ∧
        Postfix.ofText "(-2) - (-0.5)".toList = .ok out := by
  intro ts us
  have hts : NoNaN ts := by decide +kernel
  have hus : NoNaN us := by decide +kernel
  have hrender : render ts = "-inf -0 -".toList := by decide +kernel
  have hrender' : render us = "-inf 0 -".toList := by decide +kernel
  have hline : (calculateTraced "-2--.50".toList { detailed := true }).2.postfixText =
      some "-2 -0.5 -".toList := by decide +kernel
  obtain ⟨hiff, hforms⟩ := render_determines_tokens hts hus
  refine ⟨hts, hus, hrender, hrender', fun heq => ?_, hline, hforms _ _ _ hline (by decide +kernel)⟩
  have hsame := hiff.mpr heq
  rw [hrender, hrender'] at hsame
  revert hsame
  decide

end Token

end Calculator
