import Calculator.Calculation
import Calculator.Proofs.Decimal.ReadBack
import Calculator.Proofs.Token.Lexing
import Calculator.Token.Spaced

/-!
# Spacing keeps the tokens

An evenly spaced expression without its blanks is the texts of its tokens, one after the
other. Each text starts with the same kind of character as the lexeme it replaces, so it
ends the lexeme before it in the same place, and a finite number reads back. Hence the
tokens come back; an infinite number is written with letters that no lexeme has.
-/

namespace Calculator.Token

open Decimal

def AllFinite (ts : List Token) : Prop := ∀ x, .number x ∈ ts → x.isFinite = true

/-! ## What a lexeme starts with -/

section
variable {awaiting : Bool} {lex rest : Text} {t : Token}

theorem IsNumeral.head {run : Text} (h : IsNumeral run) :
    ∀ c ∈ run.head?, isNumeralChar c = true :=
  fun c hc => List.all_eq_true.mp h.1 c (List.mem_of_mem_head? hc)

theorem Lexeme.isAlpha_head (h : Lexeme awaiting lex t rest) :
    ∀ c ∈ lex.head?, c.isAlpha = t.isName := by
  intro c hc
  cases h with
  | opening | closing | negative => cases hc; rfl
  | operator op => cases hc; cases op <;> rfl
  | function f => cases f; cases hc; rfl
  | number h =>
    refine Bool.eq_false_iff.mpr fun ha => ?_
    cases (h.head c hc).symm.trans (not_isNumeralChar_of_isAlpha ha)

theorem Lexeme.isNumeralChar_head (h : Lexeme false lex t rest) :
    ∀ c ∈ lex.head?, isNumeralChar c = t.isNumber := by
  intro c hc
  cases h with
  | opening | closing => cases hc; rfl
  | operator op => cases hc; cases op <;> rfl
  | function f => cases f; cases hc; rfl
  | number h => exact h.head c hc
  | negative ha => cases ha

/-- Where the first lexemes stand for the same token, both texts end a name before them, and
both end a number. -/
theorem Reads.stops_iff {text text' : Text} {pieces pieces' : List (Text × Token)}
    (h : Reads [] awaiting text pieces) (h' : Reads [] awaiting text' pieces')
    (he : pieces.map Prod.snd = pieces'.map Prod.snd) :
    (Stops Char.isAlpha text ↔ Stops Char.isAlpha text') ∧
      (awaiting = false → (Stops isNumeralChar text ↔ Stops isNumeralChar text')) := by
  have hstops {p : Char → Bool} {b : Bool} {lex rest : Text} (hne : lex ≠ [])
      (hhead : ∀ c ∈ lex.head?, p c = b) : Stops p (lex ++ rest) ↔ b = false := by
    cases lex with
    | nil => exact absurd rfl hne
    | cons c lex => simp [Stops, ← hhead c rfl]
  cases h with
  | done =>
    cases h' with
    | done => exact ⟨.rfl, fun _ => .rfl⟩
    | cons => cases he
  | cons hl _ =>
    cases h' with
    | done => cases he
    | cons hl' _ =>
      have ht := (List.cons.inj he).1
      dsimp only at ht
      subst ht
      refine ⟨?_, ?_⟩
      · rw [hstops hl.ne_nil hl.isAlpha_head, hstops hl'.ne_nil hl'.isAlpha_head]
      · rintro rfl
        rw [hstops hl.ne_nil hl.isNumeralChar_head, hstops hl'.ne_nil hl'.isNumeralChar_head]

/-! ## Lexemes written anew -/

/-- A number that was read is written as a numeral behind the same sign. -/
theorem shortest_of_readDouble? {negative : Bool} {run : Text} {x : Float}
    (h : readDouble? negative run = some x) (hx : x.isFinite = true) :
    ∃ digits, shortest x = signText negative ++ digits ∧ IsNumeral digits ∧
      readDouble? negative digits = some x := by
  obtain ⟨digits, htext, hread⟩ := readDouble?_shortest hx
  rw [isNegative_of_readDouble? h] at htext hread
  refine ⟨digits, htext, (readDouble?_isSome_iff negative digits).mp ?_, hread⟩
  rw [hread]
  rfl

/-- The text of a token is a lexeme wherever the token was read, if what comes next still
ends it. -/
theorem Lexeme.rewrite {rest' : Text} (h : Lexeme awaiting lex t rest)
    (hfinite : ∀ x, t = .number x → x.isFinite = true)
    (hname : Stops Char.isAlpha rest → Stops Char.isAlpha rest')
    (hnumber : t.awaitsOperand = false → Stops isNumeralChar rest → Stops isNumeralChar rest') :
    Lexeme awaiting t.text t rest' := by
  cases h with
  | opening => exact .opening rest'
  | closing => exact .closing rest'
  | operator op _ h => exact .operator op rest' h
  | function f hs => exact .function f (hname hs)
  | @number _ _ x _ hs hx =>
    obtain ⟨digits, htext, hn, hread⟩ := shortest_of_readDouble? hx (hfinite x rfl)
    rw [text, htext]
    exact .number hn (hnumber rfl hs) hread
  | @negative _ _ x ha _ hs hx =>
    obtain ⟨digits, htext, hn, hread⟩ := shortest_of_readDouble? hx (hfinite x rfl)
    rw [text, htext]
    exact .negative ha hn (hnumber rfl hs) hread

end

/-- The pieces with the texts of their tokens for lexemes. -/
def rewritten (pieces : List (Text × Token)) : List (Text × Token) :=
  pieces.map fun p => (p.2.text, p.2)

theorem map_snd_rewritten (pieces : List (Text × Token)) :
    (rewritten pieces).map Prod.snd = pieces.map Prod.snd := by
  simp [rewritten]

theorem Reads.rewrite {awaiting : Bool} {text : Text} {pieces : List (Text × Token)}
    (h : Reads [] awaiting text pieces)
    (hfinite : AllFinite (pieces.map Prod.snd)) :
    Reads [] awaiting ((pieces.map Prod.snd).flatMap Token.text) (rewritten pieces) := by
  induction h with
  | done awaiting => exact .done awaiting
  | @cons awaiting lex more t pieces hl hr ih =>
    have hrest := ih fun x hx => hfinite x (List.mem_cons_of_mem _ hx)
    have hstops := hr.stops_iff hrest (map_snd_rewritten pieces).symm
    refine .cons (hl.rewrite (fun x ht => hfinite x ?_) hstops.1.mp fun ha => (hstops.2 ha).mp)
      hrest
    rw [List.map_cons, ← ht]
    exact List.mem_cons_self

/-! ## The characters of lexemes -/

/-- Digits, the point, parentheses, operators and the letters of names. -/
def isLexemeChar (c : Char) : Bool :=
  isNumeralChar c || "()+-*/^sqrt".toList.contains c

theorem isAsciiBlank_of_isLexemeChar {c : Char} (h : isLexemeChar c = true) :
    Text.isAsciiBlank c = false := by
  refine Bool.eq_false_iff.mpr fun hb => ?_
  simp only [Text.isAsciiBlank, Bool.or_eq_true, beq_iff_eq] at hb
  rcases hb with (((rfl | rfl) | rfl) | rfl) | rfl <;> revert h <;> decide

theorem Lexeme.all_isLexemeChar {awaiting : Bool} {lex rest : Text} {t : Token}
    (h : Lexeme awaiting lex t rest) : lex.all isLexemeChar = true := by
  have hrun {run : Text} (h : IsNumeral run) : run.all isLexemeChar = true :=
    List.all_eq_true.mpr fun c hc =>
      Bool.or_eq_true_iff.mpr (.inl (List.all_eq_true.mp h.1 c hc))
  cases h with
  | opening | closing => decide
  | operator op => cases op <;> decide
  | function f => cases f; decide
  | number h => exact hrun h
  | negative _ h => rw [List.all_cons, hrun h]; decide

theorem Reads.isLexemeChar {awaiting : Bool} {text : Text} {pieces : List (Text × Token)}
    (h : Reads [] awaiting text pieces) : ∀ c ∈ text, isLexemeChar c = true := by
  rw [← List.all_eq_true]
  induction h with
  | done => rfl
  | cons hl _ ih => rw [List.all_append, hl.all_isLexemeChar, ih, Bool.and_true]

theorem Reads.unblank {awaiting : Bool} {text : Text} {pieces : List (Text × Token)}
    (h : Reads [] awaiting text pieces) : unblank text = text := by
  refine List.filter_eq_self.mpr fun c hc => ?_
  rw [isAsciiBlank_of_isLexemeChar (h.isLexemeChar c hc), Bool.not_false]

/-! ## Spaced expressions -/

theorem spaced_of_scan {expression : Text} {ts : List Token} (h : scan expression = .ok ts) :
    spaced expression = ts.flatMap spacedText := by
  simp only [spaced, h]

theorem unblank_spacedText (ts : List Token) :
    unblank (ts.flatMap spacedText) = unblank (ts.flatMap text) := by
  have hone (t : Token) : unblank t.spacedText = unblank t.text := by
    cases t with
    | operator op => cases op <;> rfl
    | number | function | opening | closing => rfl
  unfold unblank at hone ⊢
  simp only [List.filter_flatMap, hone]

theorem Reads.eq_nil_iff {awaiting : Bool} {text : Text} {pieces : List (Text × Token)}
    (h : Reads [] awaiting text pieces) : text = [] ↔ pieces = [] := by
  cases h with
  | done => exact iff_of_true rfl rfl
  | cons hl _ =>
    exact iff_of_false (List.append_ne_nil_of_left_ne_nil hl.ne_nil _) (List.cons_ne_nil _ _)

theorem scan_spaced {expression : Text} {ts : List Token} (h : scan expression = .ok ts)
    (hfinite : AllFinite ts) : scan (spaced expression) = .ok ts := by
  obtain ⟨hne, pieces, hr, rfl⟩ := scan_eq_ok_iff.mp h
  have hrewrite := hr.rewrite hfinite
  have htext : unblank (spaced expression) = (pieces.map Prod.snd).flatMap text := by
    rw [spaced_of_scan h, unblank_spacedText, hrewrite.unblank]
  rw [scan_eq_ok_iff, htext]
  refine ⟨?_, rewritten pieces, hrewrite, map_snd_rewritten pieces⟩
  rwa [ne_eq, hrewrite.eq_nil_iff, rewritten, List.map_eq_nil_iff, ← hr.eq_nil_iff]

/-- A number that is not finite is spelled with a letter no lexeme has. -/
theorem isFinite_of_scan_spaced {expression : Text} {ts ts' : List Token} {x : Float}
    (h : scan expression = .ok ts) (h' : scan (spaced expression) = .ok ts')
    (hx : .number x ∈ ts) : x.isFinite = true := by
  by_contra hinfinite
  obtain ⟨-, pieces, hr, -⟩ := scan_eq_ok_iff.mp h'
  have hin {c : Char} (hc : c ∈ shortest x) (hb : Text.isAsciiBlank c = false) :
      isLexemeChar c = true := by
    refine hr.isLexemeChar c (List.mem_filter.mpr ⟨?_, by rw [hb]; rfl⟩)
    rw [spaced_of_scan h]
    exact List.mem_flatMap.mpr ⟨_, hx, hc⟩
  rcases mem_shortest_of_not_isFinite (Bool.not_eq_true _ ▸ hinfinite) with hn | hn
  · exact absurd (hin hn (by decide)) (by decide)
  · exact absurd (hin hn (by decide)) (by decide)

/-- The tokens of an expression come back from its spaced text exactly when its numbers are
finite. Then spacing it again changes nothing, and neither text changes the value. -/
theorem scan_spaced_eq_ok_iff {expression : Text} {ts : List Token}
    (h : scan expression = .ok ts) :
    (scan (spaced expression) = .ok ts ↔ AllFinite ts) ∧
    (AllFinite ts → spaced (spaced expression) = spaced expression ∧
      calculate (spaced expression) = calculate expression) := by
  refine ⟨⟨fun h' x => isFinite_of_scan_spaced h h', scan_spaced h⟩, fun hfinite => ?_⟩
  have h' := scan_spaced h hfinite
  refine ⟨?_, ?_⟩
  · rw [spaced_of_scan h', spaced_of_scan h]
  · simp only [calculate, Postfix.ofText, h, h']

theorem scan_spaced_of_hugging_tokens :
    let expression := "sqrt 9--.50\t*( -2)".toList
    let ts := [.function .sqrt, .number 9, .operator .sub, .number (-0.5), .operator .mul,
      .opening, .number (-2), .closing]
    let infinite := '1' :: List.replicate 309 '0'
    (scan expression = .ok ts ∧ scan (spaced expression) = .ok ts ∧
        calculate (spaced expression) = calculate expression) ∧
      scan infinite = .ok [.number (1 / 0)] ∧ scan (spaced infinite) ≠ .ok [.number (1 / 0)] := by
  intro expression ts infinite
  have h : scan expression = .ok ts := by decide +kernel
  have hi : scan infinite = .ok [.number (1 / 0)] := by decide +kernel
  have hfinite : AllFinite ts := by
    intro x hx
    simp only [ts, List.mem_cons, number.injEq, reduceCtorEq, false_or, List.not_mem_nil,
      or_false] at hx
    rcases hx with rfl | rfl | rfl <;> decide +kernel
  have hsame := scan_spaced_eq_ok_iff h
  refine ⟨⟨h, hsame.1.mpr hfinite, (hsame.2 hfinite).2⟩, hi, fun hs => ?_⟩
  have hx := (scan_spaced_eq_ok_iff hi).1.mp hs (1 / 0) List.mem_cons_self
  revert hx
  decide +kernel

end Calculator.Token
