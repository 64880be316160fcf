import Mathlib.Control.Monad.Basic
import Calculator.Proofs.Decimal.Numeral

/-!
# Lexing

The scanner reads a text exactly as far as lexemes can be read, each step giving the one
lexeme that stands there, and answers with the fault behind the last one. So its tokens
are those of the only decomposition of the text into lexemes, and its error is that of
the first place where no lexeme stands.
-/

namespace Calculator.Token

open Decimal

/-! ## One lexeme -/

section
variable {awaiting : Bool} {run rest : Text}

theorem numeral_run {negative : Bool} {c : Char} (hr : ∀ a ∈ run, isNumeralChar a = true)
    (hs : Stops isNumeralChar rest) :
    numeral negative [c] (run ++ rest) = (ofNumeral negative (c :: run)).map (·, rest) := by
  rw [numeral, Runs.takeWhile_append hr hs, Runs.dropWhile_append hr hs, List.singleton_append]

theorem numeral_signed {negative : Bool} (hr : ∀ a ∈ run, isNumeralChar a = true)
    (hs : Stops isNumeralChar rest) :
    numeral negative [] (run ++ rest) = (ofNumeral negative run).map (·, rest) := by
  rw [numeral, Runs.takeWhile_append hr hs, Runs.dropWhile_append hr hs, List.nil_append]

theorem isNumeral_ne_nil (h : IsNumeral run) : run ≠ [] := by
  rintro rfl
  cases h.2.1

theorem ofNumeral_of_readDouble? {negative : Bool} {x : Float}
    (h : readDouble? negative run = some x) : ofNumeral negative run = .ok (.number x) := by
  simp only [ofNumeral, h]

theorem ofNumeral_of_not_isNumeral {negative : Bool} (h : ¬ IsNumeral run) :
    ofNumeral negative run = .error (.malformedNumber (signText negative ++ run)) := by
  have hn : readDouble? negative run = none := by
    rw [← Option.not_isSome_iff_eq_none, readDouble?_isSome_iff]
    exact h
  simp only [ofNumeral, hn]

theorem lexeme_numeral (awaiting : Bool) (hne : run ≠ []) (hr : ∀ a ∈ run, isNumeralChar a = true)
    (hs : Stops isNumeralChar rest) :
    ∃ c cs, run ++ rest = c :: cs ∧
      lexeme awaiting c cs = (ofNumeral false run).map (·, rest) := by
  cases run with
  | nil => exact absurd rfl hne
  | cons c run =>
    have hc := hr c List.mem_cons_self
    have h1 : c ≠ '(' := by rintro rfl; cases hc
    have h2 : c ≠ ')' := by rintro rfl; cases hc
    have h3 : c ≠ '-' := by rintro rfl; cases hc
    refine ⟨c, run ++ rest, rfl, ?_⟩
    rw [← numeral_run (fun a ha => hr a (List.mem_cons_of_mem _ ha)) hs]
    simp only [lexeme, h1, h2, h3, hc, ↓reduceIte, false_and]

/-- A minus where an operand is awaited is read together with the run behind it. -/
theorem lexeme_minus (ha : awaiting = true) (hne : run ≠ [])
    (hr : ∀ a ∈ run, isNumeralChar a = true) (hs : Stops isNumeralChar rest) :
    lexeme awaiting '-' (run ++ rest) = (ofNumeral true run).map (·, rest) := by
  rw [← numeral_signed hr hs]
  simp [lexeme, ha, Runs.takeWhile_append hr hs, hne]

theorem lexeme_word (awaiting : Bool) (hne : run ≠ []) (hr : ∀ a ∈ run, a.isAlpha = true)
    (hs : Stops Char.isAlpha rest) :
    ∃ c cs, run ++ rest = c :: cs ∧ lexeme awaiting c cs =
      match Function.ofName? run with
      | some f => .ok (.function f, rest)
      | none => .error (.unknownFunction run) := by
  cases run with
  | nil => exact absurd rfl hne
  | cons c run =>
    have hc := hr c List.mem_cons_self
    have hrun : ∀ a ∈ run, a.isAlpha = true := fun a ha => hr a (List.mem_cons_of_mem _ ha)
    have h1 : c ≠ '(' := by rintro rfl; cases hc
    have h2 : c ≠ ')' := by rintro rfl; cases hc
    have h3 : c ≠ '-' := by rintro rfl; cases hc
    have h4 := not_isNumeralChar_of_isAlpha hc
    have hword : lexeme awaiting c (run ++ rest) = word c (run ++ rest) := by
      simp only [lexeme, h1, h2, h3, h4, hc, ↓reduceIte, false_and, Bool.false_eq_true]
    refine ⟨c, run ++ rest, rfl, hword.trans ?_⟩
    cases h : Function.ofName? (c :: run) <;>
      simp only [word, Runs.takeWhile_append hrun hs, Runs.dropWhile_append hrun hs, h]

theorem lexeme_of_lexeme {lex : Text} {t : Token} (h : Lexeme awaiting lex t rest) :
    ∃ c cs, lex ++ rest = c :: cs ∧ lexeme awaiting c cs = .ok (t, rest) := by
  cases h with
  | opening => exact ⟨_, _, rfl, rfl⟩
  | closing => exact ⟨_, _, rfl, rfl⟩
  | operator op _ h =>
    refine ⟨op.symbol, rest, rfl, ?_⟩
    cases op
    case sub => rw [h rfl]; rfl
    all_goals rfl
  | function f hs =>
    have hf : ∀ a ∈ f.name, a.isAlpha = true := List.all_eq_true.mp (by cases f; rfl)
    obtain ⟨c, cs, hc, hl⟩ := lexeme_word awaiting (by cases f; decide) hf hs
    exact ⟨c, cs, hc, by rw [hl, Function.ofName?_name]⟩
  | number h hs hx =>
    obtain ⟨c, cs, hc, hl⟩ := lexeme_numeral awaiting (isNumeral_ne_nil h)
      (List.all_eq_true.mp h.1) hs
    exact ⟨c, cs, hc, by rw [hl, ofNumeral_of_readDouble? hx]; rfl⟩
  | negative ha h hs hx =>
    refine ⟨'-', _, rfl, ?_⟩
    have hl := lexeme_minus ha (isNumeral_ne_nil h) (List.all_eq_true.mp h.1) hs
    rw [List.append_eq, hl, ofNumeral_of_readDouble? hx]
    rfl

/-- The reader names the fault of a text that starts with no lexeme. -/
theorem lexeme_of_fault {text : Text} {err : EvalError} (h : Fault awaiting text err) :
    ∃ c cs, text = c :: cs ∧ lexeme awaiting c cs = .error err := by
  cases h with
  | sign ha hs =>
    refine ⟨'-', _, rfl, ?_⟩
    have hn := Runs.takeWhile_append (r := []) nofun hs
    rw [List.nil_append] at hn
    simp [lexeme, ha, hn]
  | negative ha hne hr h hs =>
    refine ⟨'-', _, rfl, ?_⟩
    rw [List.append_eq, lexeme_minus ha hne (List.all_eq_true.mp hr) hs,
      ofNumeral_of_not_isNumeral h]
    rfl
  | number hne hr h hs =>
    obtain ⟨c, cs, hc, hl⟩ := lexeme_numeral awaiting hne (List.all_eq_true.mp hr) hs
    exact ⟨c, cs, hc, by rw [hl, ofNumeral_of_not_isNumeral h]; rfl⟩
  | @name run _ hne hr h hs =>
    obtain ⟨c, cs, hc, hl⟩ := lexeme_word awaiting hne (List.all_eq_true.mp hr) hs
    refine ⟨c, cs, hc, ?_⟩
    rw [hl]
    cases hf : Function.ofName? run with
    | none => rfl
    | some f => exact absurd (Function.name_of_ofName? hf) (h f)
  | @character c _ hn ha hp h =>
    refine ⟨c, _, rfl, ?_⟩
    have h3 : c ≠ '-' := fun hc => h .sub hc.symm
    cases hop : Operator.ofSymbol? c with
    | some op => exact absurd (Operator.symbol_of_ofSymbol? hop) (h op)
    | none => simp [lexeme, hp.1, hp.2, h3, hn, ha, hop]

theorem readDouble?_or_not_isNumeral (negative : Bool) (run : Text) :
    (∃ x, IsNumeral run ∧ readDouble? negative run = some x) ∨ ¬ IsNumeral run := by
  by_cases h : IsNumeral run
  · obtain ⟨x, hx⟩ := Option.isSome_iff_exists.mp ((readDouble?_isSome_iff negative run).mpr h)
    exact .inl ⟨x, h, hx⟩
  · exact .inr h

theorem lexeme_or_fault (awaiting : Bool) (c : Char) (cs : Text) :
    (∃ lex t rest, c :: cs = lex ++ rest ∧ Lexeme awaiting lex t rest) ∨
      ∃ err, Fault awaiting (c :: cs) err := by
  by_cases h1 : c = '('
  · exact .inl ⟨['('], _, cs, by rw [h1]; rfl, .opening cs⟩
  by_cases h2 : c = ')'
  · exact .inl ⟨[')'], _, cs, by rw [h2]; rfl, .closing cs⟩
  by_cases h3 : c = '-' ∧ awaiting = true
  · obtain ⟨rfl, ha⟩ := h3
    obtain ⟨run, rest, rfl, hr, hs⟩ := Runs.exists_run isNumeralChar cs
    by_cases hne : run = []
    · subst hne
      exact .inr ⟨_, .sign ha hs⟩
    rcases readDouble?_or_not_isNumeral true run with ⟨x, hn, hx⟩ | hn
    · exact .inl ⟨'-' :: run, _, rest, rfl, .negative ha hn hs hx⟩
    · exact .inr ⟨_, .negative ha hne (List.all_eq_true.mpr hr) hn hs⟩
  by_cases h4 : isNumeralChar c = true
  · obtain ⟨run, rest, hc, hr, hs⟩ := Runs.exists_run isNumeralChar (c :: cs)
    have hne := Runs.ne_nil_of_head h4 hc hs
    rw [hc]
    rcases readDouble?_or_not_isNumeral false run with ⟨x, hn, hx⟩ | hn
    · exact .inl ⟨run, _, rest, rfl, .number hn hs hx⟩
    · exact .inr ⟨_, .number hne (List.all_eq_true.mpr hr) hn hs⟩
  by_cases h5 : c.isAlpha = true
  · obtain ⟨run, rest, hc, hr, hs⟩ := Runs.exists_run Char.isAlpha (c :: cs)
    have hne := Runs.ne_nil_of_head h5 hc hs
    rw [hc]
    by_cases hf : ∃ f : Function, f.name = run
    · obtain ⟨f, rfl⟩ := hf
      exact .inl ⟨f.name, _, rest, rfl, .function f hs⟩
    · exact .inr ⟨_, .name hne (List.all_eq_true.mpr hr) (fun f h => hf ⟨f, h⟩) hs⟩
  by_cases h6 : ∃ op : Operator, op.symbol = c
  · obtain ⟨op, rfl⟩ := h6
    refine .inl ⟨[op.symbol], _, cs, rfl, .operator op cs ?_⟩
    rintro rfl
    exact Bool.eq_false_iff.mpr fun ha => h3 ⟨rfl, ha⟩
  · exact .inr ⟨_, .character (Bool.eq_false_iff.mpr h4) (Bool.eq_false_iff.mpr h5) ⟨h1, h2⟩
      fun op h => h6 ⟨op, h⟩⟩

end

theorem Lexeme.ne_nil {awaiting : Bool} {lex rest : Text} {t : Token}
    (h : Lexeme awaiting lex t rest) : lex ≠ [] := by
  cases h with
  | function f => cases f; decide
  | number h => exact isNumeral_ne_nil h
  | opening | closing | operator | negative => exact List.cons_ne_nil _ _

theorem Lexeme.unique {awaiting : Bool} {lex lex' rest rest' : Text} {t t' : Token}
    (h : Lexeme awaiting lex t rest) (h' : Lexeme awaiting lex' t' rest')
    (he : lex ++ rest = lex' ++ rest') : lex = lex' ∧ t = t' ∧ rest = rest' := by
  obtain ⟨c, cs, hc, hl⟩ := lexeme_of_lexeme h
  obtain ⟨c', cs', hc', hl'⟩ := lexeme_of_lexeme h'
  rw [he, hc'] at hc
  cases hc
  rw [hl] at hl'
  cases hl'
  exact ⟨List.append_cancel_right he, rfl, rfl⟩

/-- No lexeme stands at the front of the text. -/
def Unreadable (awaiting : Bool) (text : Text) : Prop :=
  ∀ lex t rest, Lexeme awaiting lex t rest → text ≠ lex ++ rest

theorem Fault.unreadable {awaiting : Bool} {text : Text} {err : EvalError}
    (h : Fault awaiting text err) : Unreadable awaiting text := by
  rintro lex t rest hl rfl
  obtain ⟨c, cs, hc, he⟩ := lexeme_of_fault h
  obtain ⟨c', cs', hc', ho⟩ := lexeme_of_lexeme hl
  rw [hc] at hc'
  cases hc'
  rw [he] at ho
  cases ho

/-! ## Whole texts -/

theorem awaitingAfter_cons (awaiting : Bool) (lex : Text) (t : Token)
    (pieces : List (Text × Token)) :
    awaitingAfter awaiting ((lex, t) :: pieces) = awaitingAfter t.awaitsOperand pieces := by
  cases h : pieces.getLast? <;> simp [awaitingAfter, List.getLast?_cons, h]

theorem scanFrom_of_lexeme {awaiting : Bool} {lex rest : Text} {t : Token}
    (h : Lexeme awaiting lex t rest) :
    scanFrom awaiting (lex ++ rest) = (scanFrom t.awaitsOperand rest).map (t :: ·) := by
  obtain ⟨c, cs, hc, hl⟩ := lexeme_of_lexeme h
  rw [hc, scanFrom]
  split
  · rename_i he
    rw [hl] at he
    cases he
  · rename_i he
    rw [hl] at he
    cases he
    rfl

theorem scanFrom_of_fault {awaiting : Bool} {text : Text} {err : EvalError}
    (h : Fault awaiting text err) : scanFrom awaiting text = .error err := by
  obtain ⟨c, cs, rfl, hl⟩ := lexeme_of_fault h
  rw [scanFrom]
  split
  · rename_i he
    rw [hl] at he
    cases he
    rfl
  · rename_i he
    rw [hl] at he
    cases he

/-- The scanner goes on behind the lexemes that are read. -/
theorem scanFrom_of_reads {awaiting : Bool} {text rest : Text} {pieces : List (Text × Token)}
    (h : Reads rest awaiting text pieces) :
    scanFrom awaiting text =
      (scanFrom (awaitingAfter awaiting pieces) rest).map (pieces.map Prod.snd ++ ·) := by
  induction h with
  | done awaiting => cases h : scanFrom awaiting rest <;> simp [awaitingAfter, Except.map, h]
  | cons hl _ ih =>
    rw [scanFrom_of_lexeme hl, ih, awaitingAfter_cons]
    cases scanFrom (awaitingAfter _ _) rest <;> rfl

/-- Every text is read up to its end or to a fault. -/
theorem reads_or_fault (awaiting : Bool) (text : Text) :
    ∃ pieces rest, Reads rest awaiting text pieces ∧
      (rest = [] ∨ ∃ err, Fault (awaitingAfter awaiting pieces) rest err) := by
  induction h : text.length using Nat.strongRecOn generalizing awaiting text with
  | _ n ih =>
    cases text with
    | nil => exact ⟨[], [], .done awaiting, .inl rfl⟩
    | cons c cs =>
      rcases lexeme_or_fault awaiting c cs with ⟨lex, t, more, hc, hl⟩ | ⟨err, hf⟩
      · have hlt : more.length < n := by
          rw [← h, hc, List.length_append]
          have := List.length_pos_iff.mpr hl.ne_nil
          omega
        obtain ⟨pieces, rest, hr, hend⟩ := ih more.length hlt t.awaitsOperand more rfl
        refine ⟨(lex, t) :: pieces, rest, hc ▸ .cons hl hr, ?_⟩
        rwa [awaitingAfter_cons]
      · exact ⟨[], c :: cs, .done awaiting, .inr ⟨err, hf⟩⟩

/-- The text is read as far as lexemes go: the pieces, then a rest that starts with none. -/
def ReadsTo (text : Text) (pieces : List (Text × Token)) (rest : Text) : Prop :=
  Reads rest true text pieces ∧ Unreadable (awaitingAfter true pieces) rest

theorem unreadable_nil (awaiting : Bool) : Unreadable awaiting [] :=
  fun _ _ _ hl he => hl.ne_nil (List.append_eq_nil_iff.mp he.symm).1

/-- Lexemes are read one way only, up to where none stands. -/
theorem Reads.unique {awaiting : Bool} {text rest rest' : Text}
    {pieces pieces' : List (Text × Token)} (h : Reads rest awaiting text pieces)
    (hu : Unreadable (awaitingAfter awaiting pieces) rest) (h' : Reads rest' awaiting text pieces')
    (hu' : Unreadable (awaitingAfter awaiting pieces') rest') :
    pieces = pieces' ∧ rest = rest' := by
  induction h generalizing pieces' with
  | done awaiting =>
    cases h' with
    | done => exact ⟨rfl, rfl⟩
    | cons hl _ => exact absurd rfl (hu _ _ _ hl)
  | @cons awaiting lex more t pieces hl _ ih =>
    generalize ht : lex ++ more = text at h'
    cases h' with
    | done => exact absurd ht.symm (hu' _ _ _ hl)
    | cons hl' hr' =>
      obtain ⟨rfl, rfl, rfl⟩ := hl.unique hl' ht
      rw [awaitingAfter_cons] at hu hu'
      obtain ⟨rfl, rfl⟩ := ih hu hr' hu'
      exact ⟨rfl, rfl⟩

/-! ## Expressions -/

/-- The expression without its ASCII blanks. -/
def unblank (expression : Text) : Text := expression.filter (!Text.isAsciiBlank ·)

theorem scan_of_unblank {expression : Text} (h : unblank expression ≠ []) :
    scan expression = scanFrom true (unblank expression) := by
  unfold scan
  split
  · rename_i he
    exact absurd he h
  · rename_i he
    rw [unblank, he]

theorem scan_of_unblank_nil {expression : Text} (h : unblank expression = []) :
    scan expression = .error .emptyExpression := by
  unfold scan
  split
  · rfl
  · rename_i he
    cases he.symm.trans h

theorem scanFrom_eq_ok_iff {text : Text} {ts : List Token} :
    scanFrom true text = .ok ts ↔
      ∃ pieces, Reads [] true text pieces ∧ pieces.map Prod.snd = ts := by
  constructor
  · intro h
    obtain ⟨pieces, rest, hr, hend⟩ := reads_or_fault true text
    rw [scanFrom_of_reads hr] at h
    rcases hend with rfl | ⟨err, hf⟩
    · rw [scanFrom] at h
      cases h
      exact ⟨pieces, hr, (List.append_nil _).symm⟩
    · rw [scanFrom_of_fault hf] at h
      cases h
  · rintro ⟨pieces, hr, rfl⟩
    rw [scanFrom_of_reads hr, scanFrom]
    exact congrArg Except.ok (List.append_nil _)

theorem scanFrom_eq_error_iff {text : Text} {err : EvalError} :
    scanFrom true text = .error err ↔ ∃ pieces rest, ReadsTo text pieces rest ∧
      Fault (awaitingAfter true pieces) rest err := by
  constructor
  · intro h
    obtain ⟨pieces, rest, hr, hend⟩ := reads_or_fault true text
    rw [scanFrom_of_reads hr] at h
    rcases hend with rfl | ⟨err', hf⟩
    · rw [scanFrom] at h
      cases h
    · rw [scanFrom_of_fault hf] at h
      cases h
      exact ⟨pieces, rest, ⟨hr, hf.unreadable⟩, hf⟩
  · rintro ⟨pieces, rest, hr, hf⟩
    rw [scanFrom_of_reads hr.1, scanFrom_of_fault hf]
    rfl

theorem scan_eq_ok_iff {expression : Text} {ts : List Token} :
    scan expression = .ok ts ↔ unblank expression ≠ [] ∧
      ∃ pieces, Reads [] true (unblank expression) pieces ∧ pieces.map Prod.snd = ts := by
  by_cases hne : unblank expression = []
  · simp [scan_of_unblank_nil hne, hne]
  · rw [scan_of_unblank hne, scanFrom_eq_ok_iff, and_iff_right hne]

/-- An expression has tokens exactly when it splits into lexemes, which it does in one way
only. Otherwise the error is the fault at the first place where no lexeme stands. -/
theorem scan_eq_decomposition (expression : Text) :
    (∀ ts, scan expression = .ok ts ↔ unblank expression ≠ [] ∧
      ∃ pieces, Reads [] true (unblank expression) pieces ∧ pieces.map Prod.snd = ts) ∧
    (∀ pieces pieces', Reads [] true (unblank expression) pieces →
      Reads [] true (unblank expression) pieces' → pieces = pieces') ∧
    (unblank expression = [] → scan expression = .error .emptyExpression) ∧
    (unblank expression ≠ [] → ∀ err, scan expression = .error err ↔
      ∃ pieces rest, ReadsTo (unblank expression) pieces rest ∧
        Fault (awaitingAfter true pieces) rest err) ∧
    (∀ pieces rest pieces' rest', ReadsTo (unblank expression) pieces rest →
      ReadsTo (unblank expression) pieces' rest' → pieces = pieces' ∧ rest = rest') := by
  refine ⟨fun ts => scan_eq_ok_iff, fun pieces pieces' h h' => ?_, scan_of_unblank_nil,
    fun hne err => ?_, fun _ _ _ _ h h' => h.1.unique h.2 h'.1 h'.2⟩
  · exact (h.unique (unreadable_nil _) h' (unreadable_nil _)).1
  · rw [scan_of_unblank hne, scanFrom_eq_error_iff]

end Calculator.Token
