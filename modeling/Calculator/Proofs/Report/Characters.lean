import Calculator.Proofs.Decimal.ReadBack
import Calculator.Proofs.Postfix.Derivation
import Calculator.Proofs.Text.Plain
import Calculator.Proofs.Text.Wrapping
import Calculator.Proofs.Token.Lexing
import Calculator.Report

/-!
# The characters of what is shown

Numbers, tokens and steps are shown in plain characters. Other characters come from the
expression alone: from the words of one that cannot be read, and from what an error quotes of
it. None of them ends a line, so a summary is always one line.
-/

namespace Calculator

open Text

/-! ## Numbers -/

namespace Decimal

theorem plain_ofNat (n : Nat) : Plain (ofNat n) :=
  fun c hc => isPlain_of_isDigit (isDigit_of_mem_ofNat c hc)

theorem plain_fixed (places k : Nat) : Plain (fixed places k) := by
  unfold fixed
  split
  · exact plain_ofNat k
  · simp only [plain_append, plain_cons]
    exact ⟨plain_ofNat _, rfl, fun c hc => isPlain_of_isDigit (isDigit_of_mem_leftpad c hc)⟩

theorem plain_signText (negative : Bool) : Plain (signText negative) := by
  cases negative <;> decide

theorem plain_dropEndWhile {cs : Text} (h : Plain cs) (p : Char → Bool) :
    Plain (dropEndWhile p cs) := by
  have hs : (dropEndWhile p cs).Sublist cs := by
    have := (List.dropWhile_sublist p (l := cs.reverse)).reverse
    rwa [List.reverse_reverse] at this
  exact h.sublist hs

theorem plain_displayFixed (units : Nat) : Plain (displayFixed units) := by
  rw [displayFixed]
  exact plain_dropEndWhile (plain_dropEndWhile (plain_fixed _ _) _) _

theorem plain_intText (n : Int) : Plain (intText n) :=
  plain_append.mpr ⟨plain_signText _, plain_ofNat _⟩

theorem plain_displayScientific (units : Nat) : Plain (displayScientific units) := by
  rw [displayScientific_eq]
  beta_reduce
  rcases leadingDigits units with ⟨k, e⟩
  exact plain_append.mpr ⟨plain_fixed _ k, plain_cons.mpr ⟨rfl, plain_intText e⟩⟩

theorem plain_display (x : Float) : Plain (display x) := by
  rw [display]
  cases Exact.ofFloat x with
  | nan => decide
  | infinite negative => exact plain_append.mpr ⟨plain_signText _, by decide⟩
  | finite negative units =>
    refine plain_append.mpr ⟨plain_signText _, ?_⟩
    split
    · exact plain_displayScientific units
    · exact plain_displayFixed units

theorem plain_toPlaces (x : Float) : Plain (toPlaces x) := by
  rw [toPlaces]
  cases Exact.ofFloat x with
  | nan => decide
  | infinite negative => exact plain_append.mpr ⟨plain_signText _, by decide⟩
  | finite negative units => exact plain_append.mpr ⟨plain_signText _, plain_fixed _ _⟩

theorem plain_shortestOfBits (bits : Nat) : Plain (shortestOfBits bits) := by
  by_cases h0 : bits = 0
  · subst h0
    rw [shortestOfBits, if_pos rfl]
    decide
  · rcases shortestOfBits_cases h0 with ⟨k, e, -, htext⟩ | htext
    · rw [htext, positional]
      exact plain_fixed _ _
    · rw [htext, exactDigits]
      exact plain_fixed _ _

theorem plain_shortest (x : Float) : Plain (shortest x) := by
  unfold shortest
  dsimp only
  split
  · exact plain_append.mpr ⟨plain_signText _, plain_shortestOfBits _⟩
  · split
    · exact plain_append.mpr ⟨plain_signText _, by decide⟩
    · decide

end Decimal

open Decimal

/-! ## Tokens -/

namespace Token

theorem plain_text (t : Token) : Plain t.text := by
  cases t with
  | number x => exact plain_shortest x
  | operator op => cases op <;> decide
  | function f => cases f; decide
  | opening | closing => decide

theorem plain_spacedText (t : Token) : Plain t.spacedText := by
  cases t with
  | operator op => cases op <;> decide
  | number x => exact plain_text (.number x)
  | function f => exact plain_text (.function f)
  | opening | closing => decide

theorem plain_render (ts : List Token) : Plain (render ts) := by
  intro c hc
  rcases mem_intercalate_space hc with rfl | ⟨word, hword, hc⟩
  · rfl
  · obtain ⟨t, -, rfl⟩ := List.mem_map.mp hword
    exact plain_text t c hc

theorem oneLine_spaced (expression : Text) : OneLine (spaced expression) := by
  intro c hc
  unfold spaced at hc
  split at hc
  · obtain ⟨t, -, hc⟩ := List.mem_flatMap.mp hc
    exact not_endsLine_of_isPlain (plain_spacedText t c hc)
  · rcases mem_intercalate_space hc with rfl | ⟨word, hword, hc⟩
    · rfl
    · exact not_endsLine_of_not_isBlank (of_mem_words hword hc).2

end Token

/-! ## Steps -/

theorem Step.plain_numbered {step : Step} (h : Plain step.operation) (i : Nat) :
    Plain (step.numbered i) := by
  unfold numbered
  simp only [plain_append]
  exact ⟨⟨⟨⟨⟨by decide +kernel, plain_ofNat _⟩, by decide +kernel⟩, h⟩, by decide +kernel⟩,
    plain_display _⟩

theorem plain_postfixLine {rendered : Text} (h : Plain rendered) : Plain (postfixLine rendered) :=
  plain_append.mpr ⟨by decide, h⟩

theorem Entry.plain_timeLine (entry : Entry) : Plain entry.timeLine := by
  unfold timeLine
  simp only [plain_append]
  exact ⟨⟨by decide, plain_toPlaces _⟩, by decide⟩

structure Trace.Plain (trace : Trace) : Prop where
  steps : ∀ step ∈ trace.steps, Text.Plain step.operation
  postfixText : ∀ rendered ∈ trace.postfixText, Text.Plain rendered

namespace Postfix

theorem plain_stepOf {stack after : List Float} {t : Token} {step : Step}
    (h : step ∈ stepOf stack t after) : Plain step.operation := by
  unfold stepOf at h
  split at h
  · rename_i f _ _
    cases h
    simp only [plain_append, plain_cons]
    exact ⟨⟨Token.plain_text (.function f), rfl, plain_display _⟩, rfl, plain_nil⟩
  · rename_i op _ _
    cases h
    simp only [plain_append, plain_cons]
    exact ⟨⟨plain_display _, rfl, by cases op <;> rfl, rfl, plain_nil⟩, plain_display _⟩
  · cases h

theorem plain_record {trace : Trace} (h : trace.Plain) {step : Option Step}
    (hs : ∀ s ∈ step, Plain s.operation) : (trace.record step).Plain := by
  unfold Trace.record
  split
  · refine ⟨fun s hm => ?_, h.postfixText⟩
    rcases List.mem_append.mp hm with hm | hm
    · exact h.steps s hm
    · exact hs s (Option.mem_toList.mp hm)
  · exact h

theorem plain_evaluateFrom {trace : Trace} (h : trace.Plain) (stack : List Float)
    (ts : List Token) : (evaluateFrom stack trace ts).2.Plain := by
  induction ts generalizing stack trace with
  | nil => exact h
  | cons t ts ih =>
    rw [evaluateFrom]
    cases push stack t with
    | error e => exact h
    | ok after => exact ih (plain_record h fun s => plain_stepOf) after

end Postfix

theorem plain_calculateTraced (expression : Text) (detailed : Bool) :
    (calculateTraced expression { detailed }).2.Plain := by
  have hnew : Trace.Plain { detailed } := ⟨nofun, nofun⟩
  unfold calculateTraced
  split
  · exact hnew
  · rename_i ts _
    refine Postfix.plain_evaluateFrom ?_ [] ts
    unfold Trace.notePostfix
    split
    · exact ⟨nofun, fun rendered hr => by cases hr; exact Token.plain_render ts⟩
    · exact hnew

/-! ## Errors -/

namespace EvalError

/-- What an error quotes of the expression. -/
def quoted : EvalError → Text
  | invalidCharacter c => [c]
  | malformedNumber text => text
  | unknownFunction name => name
  | _ => []

theorem oneLine_message {e : EvalError} (h : OneLine e.quoted) : OneLine e.message := by
  cases e with
  | invalidCharacter c =>
    have hc := h c List.mem_cons_self
    exact oneLine_append.mpr ⟨by decide +kernel, oneLine_cons.mpr ⟨hc, by decide⟩⟩
  | malformedNumber | unknownFunction =>
    unfold message
    simp only [oneLine_append]
    exact ⟨⟨by decide +kernel, h⟩, by decide⟩
  | _ => decide +kernel

end EvalError

namespace Token

variable {err : EvalError}

theorem Fault.mem_of_quoted {awaiting : Bool} {text : Text} {c : Char}
    (h : Fault awaiting text err) (hc : c ∈ err.quoted) : c ∈ text := by
  cases h with
  | sign => cases hc
  | negative => exact List.mem_append_left _ hc
  | number => exact List.mem_append_left _ hc
  | name => exact List.mem_append_left _ hc
  | character => exact List.mem_cons.mpr (.inl (List.mem_singleton.mp hc))

theorem Reads.suffix {rest text : Text} {awaiting : Bool} {pieces : List (Text × Token)}
    (h : Reads rest awaiting text pieces) : rest <:+ text := by
  induction h with
  | done => exact List.suffix_rfl
  | cons _ _ ih => exact ih.trans (List.suffix_append _ _)

/-- The scanner quotes what it could not read, without the blanks that it skipped. -/
theorem oneLine_quoted_scan {expression : Text} (h : scan expression = .error err) :
    OneLine err.quoted := by
  by_cases hne : unblank expression = []
  · rw [scan_of_unblank_nil hne] at h
    cases h
    exact oneLine_nil
  · rw [scan_of_unblank hne] at h
    obtain ⟨pieces, rest, hr, hf⟩ := scanFrom_eq_error_iff.mp h
    intro c hc
    have hm : c ∈ unblank expression := hr.1.suffix.subset (hf.mem_of_quoted hc)
    have hb := (List.mem_filter.mp hm).2
    exact not_endsLine_of_not_isAsciiBlank (by simpa using hb)

end Token

namespace Postfix

variable {err : EvalError}

theorem quoted_take {y : Yard} {t : Token} (h : y.take t = .error err) : err.quoted = [] := by
  cases t with
  | closing =>
    unfold Yard.take at h
    dsimp only at h
    split at h <;> cases h
    rfl
  | number | function | opening | operator => cases h

theorem quoted_finish {y : Yard} (h : y.finish = .error err) : err.quoted = [] := by
  unfold Yard.finish at h
  split at h <;> cases h
  rfl

theorem quoted_ofInfix {ts : List Token} (h : ofInfix ts = .error err) : err.quoted = [] := by
  rcases EvalError.bind_eq_error.mp h with h | ⟨y, -, h⟩
  · exact EvalError.of_foldlM_error (p := (·.quoted = [])) quoted_take h
  · exact quoted_finish h

theorem quoted_push {stack : List Float} {t : Token} (h : push stack t = .error err) :
    err.quoted = [] := by
  unfold push at h
  split at h
  · cases h
  · rw [Expr.function_error (EvalError.map_eq_error.mp h)]
    rfl
  · rw [Expr.operator_error _ (EvalError.map_eq_error.mp h)]
    rfl
  · cases h
    rfl

theorem quoted_evaluateFrom {stack : List Float} {trace : Trace} {ts : List Token}
    (h : (evaluateFrom stack trace ts).1 = .error err) : err.quoted = [] := by
  induction ts generalizing stack trace with
  | nil =>
    rw [evaluateFrom] at h
    unfold single at h
    split at h <;> cases h
    rfl
  | cons t ts ih =>
    rw [evaluateFrom] at h
    split at h
    · rename_i hp
      cases h
      exact quoted_push hp
    · exact ih h

end Postfix

/-- Only the scanner quotes anything of the expression. -/
theorem oneLine_quoted_calculateTraced {expression : Text} {trace : Trace} {err : EvalError}
    (h : (calculateTraced expression trace).1 = .error err) : OneLine err.quoted := by
  unfold calculateTraced at h
  split at h
  · rename_i ht
    cases h
    rcases EvalError.bind_eq_error.mp ht with hs | ⟨ts, -, hi⟩
    · exact Token.oneLine_quoted_scan hs
    · rw [Postfix.quoted_ofInfix hi]
      exact oneLine_nil
  · rw [Postfix.quoted_evaluateFrom h]
    exact oneLine_nil

/-! ## Entries -/

namespace Entry

theorem plain_label (id : Nat) : Plain (label id) := plain_cons.mpr ⟨rfl, plain_ofNat id⟩

theorem plain_labelled (id : Nat) : Plain (label id ++ [' ']) :=
  plain_append.mpr ⟨plain_label id, by decide⟩

theorem oneLine_outcomeText (id : Nat) (expression : Text) (detailed : Bool) (nanos : Nat) :
    OneLine (calculate id expression detailed nanos).outcomeText := by
  unfold outcomeText
  split
  · exact (plain_display _).oneLine
  · rename_i h
    refine oneLine_append.mpr ⟨by decide +kernel, EvalError.oneLine_message ?_⟩
    exact oneLine_quoted_calculateTraced h

theorem oneLine_summary (id : Nat) (expression : Text) (detailed : Bool) (nanos : Nat) :
    OneLine (calculate id expression detailed nanos).summary := by
  unfold summary
  simp only [oneLine_append]
  exact ⟨⟨⟨⟨(plain_label _).oneLine, by decide⟩, Token.oneLine_spaced _⟩, by decide +kernel⟩,
    oneLine_outcomeText id expression detailed nanos⟩

/-- An entry whose summary is one line and whose details are plain. -/
structure Printable (entry : Entry) : Prop where
  summary : OneLine entry.summary
  steps : ∀ step ∈ entry.steps, Plain step.operation
  postfixText : ∀ rendered ∈ entry.postfixText, Plain rendered

theorem printable_calculate (id : Nat) (expression : Text) (detailed : Bool) (nanos : Nat) :
    Printable (calculate id expression detailed nanos) where
  summary := oneLine_summary id expression detailed nanos
  steps := (plain_calculateTraced expression detailed).steps
  postfixText := (plain_calculateTraced expression detailed).postfixText

end Entry

end Calculator
