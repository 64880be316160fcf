import Calculator.Proofs.Postfix.Derivation
import Calculator.Proofs.Postfix.Forest
import Calculator.Proofs.Postfix.Placement

/-!
# Tracing only observes

An evaluation with a trace computes what the one without it computes, and leaves in the
trace the steps of its run (`stepsFrom`). They can be told from the run alone: there is one
for each place of the sequence at which an operation is applied (`stepAt?`), with the value
it gives there (`applied?`), and none behind the first error.
-/

namespace Calculator

def Trace.extend (trace : Trace) (new : List Step) : Trace :=
  if trace.detailed then { trace with steps := trace.steps ++ new } else trace

section
variable (trace : Trace)

theorem Trace.record_eq (step : Option Step) : trace.record step = trace.extend step.toList := rfl

theorem Trace.extend_nil : trace.extend [] = trace := by
  obtain ⟨detailed, steps, postfixText⟩ := trace
  cases detailed
  · rfl
  · exact congrArg (Trace.mk true · postfixText) (List.append_nil steps)

theorem Trace.extend_extend (new more : List Step) :
    (trace.extend new).extend more = trace.extend (new ++ more) := by
  obtain ⟨detailed, steps, postfixText⟩ := trace
  cases detailed
  · rfl
  · exact congrArg (Trace.mk true · postfixText) (List.append_assoc steps new more)

end

namespace Postfix

/-! ## The steps of a run -/

/-- The steps made on a given stack, up to the first error. -/
def stepsFrom : List Float → List Token → List Step
  | _, [] => []
  | stack, t :: ts =>
    match push stack t with
    | .error _ => []
    | .ok after => (stepOf stack t after).toList ++ stepsFrom after ts

theorem evaluateFrom_eq (stack : List Float) (trace : Trace) (ts : List Token) :
    evaluateFrom stack trace ts =
      (ts.foldlM push stack >>= single, trace.extend (stepsFrom stack ts)) := by
  induction ts generalizing stack trace with
  | nil => rw [stepsFrom, trace.extend_nil]; rfl
  | cons t ts ih =>
    rw [evaluateFrom, stepsFrom, List.foldlM_cons]
    cases push stack t with
    | error err => rw [trace.extend_nil]; rfl
    | ok after =>
      show evaluateFrom after (trace.record (stepOf stack t after)) ts = _
      rw [ih, trace.record_eq, trace.extend_extend]
      rfl

/-! ## Steps by place -/

/-- The step made at place `i`: by the token there, on the stack that the tokens before it
leave. -/
def stepAt? (stack : List Float) (ts : List Token) (i : Nat) : Option Step := do
  let before ← ((ts.take i).foldlM push stack).toOption
  let t ← ts[i]?
  let after ← (push before t).toOption
  stepOf before t after

/-- The value that the operation at place `i` gives; nothing where there is none, or where the
run has failed. -/
def applied? (stack : List Float) (ts : List Token) (i : Nat) : Option Float :=
  match ts[i]?, (ts.take (i + 1)).foldlM push stack with
  | some t, .ok after => if t.isOperation then after.head? else none
  | _, _ => none

theorem stepAt?_zero (stack : List Float) (t : Token) (ts : List Token) :
    stepAt? stack (t :: ts) 0 = (push stack t).toOption.bind (stepOf stack t) := rfl

theorem stepAt?_succ (stack : List Float) (t : Token) (ts : List Token) (i : Nat) :
    stepAt? stack (t :: ts) (i + 1) = (push stack t).toOption.bind (stepAt? · ts i) := by
  rw [stepAt?, List.take_succ_cons, List.foldlM_cons]
  cases push stack t <;> rfl

theorem stepsFrom_eq (stack : List Float) (ts : List Token) :
    stepsFrom stack ts = (List.range ts.length).filterMap (stepAt? stack ts) := by
  induction ts generalizing stack with
  | nil => rfl
  | cons t ts ih =>
    have hsucc : stepAt? stack (t :: ts) ∘ Nat.succ =
        fun i => (push stack t).toOption.bind (stepAt? · ts i) :=
      funext (stepAt?_succ stack t ts)
    rw [stepsFrom, List.length_cons, List.range_succ_eq_map, List.filterMap_cons,
      List.filterMap_map, hsucc, stepAt?_zero]
    cases push stack t with
    | error err => simp [Except.toOption]
    | ok after =>
      show (stepOf stack t after).toList ++ stepsFrom after ts = _
      rw [ih]
      cases h : stepOf stack t after <;> simp [Except.toOption, h]

/-- A step is made exactly by an operation, with the value that it leaves on top. -/
theorem stepOf_cases {stack after : List Float} {t : Token} (h : push stack t = .ok after) :
    (t.isOperation = false ∧ stepOf stack t after = none) ∨
      ∃ step rest, t.isOperation = true ∧ stepOf stack t after = some step ∧
        after = step.result :: rest := by
  unfold push at h
  split at h
  · cases h
    exact .inl ⟨rfl, by cases stack <;> rfl⟩
  · obtain ⟨y, -, rfl⟩ := EvalError.map_eq_ok.mp h
    exact .inr ⟨_, _, rfl, rfl, rfl⟩
  · obtain ⟨z, -, rfl⟩ := EvalError.map_eq_ok.mp h
    exact .inr ⟨_, _, rfl, rfl, rfl⟩
  · cases h

theorem foldlM_push_concat {stack before : List Float} {ts : List Token} (t : Token)
    (h : ts.foldlM push stack = .ok before) :
    (ts ++ [t]).foldlM push stack = push before t := by
  rw [List.foldlM_append, h]
  exact bind_pure (push before t)

theorem result_stepAt? (stack : List Float) (ts : List Token) (i : Nat) :
    (stepAt? stack ts i).map Step.result = applied? stack ts i := by
  cases ht : ts[i]? with
  | none => simp [stepAt?, applied?, ht]
  | some t =>
    have hi : ts.take (i + 1) = ts.take i ++ [t] := by
      rw [List.take_add_one, ht]
      rfl
    rw [stepAt?, applied?, ht, hi]
    cases hb : (ts.take i).foldlM push stack with
    | error err => rw [List.foldlM_append, hb]; rfl
    | ok before =>
      rw [foldlM_push_concat t hb]
      cases hp : push before t with
      | error err => simp [Except.toOption, hp]
      | ok after =>
        rcases stepOf_cases hp with ⟨hnot, hnone⟩ | ⟨step, rest, his, hsome, rfl⟩
        · simp [Except.toOption, hp, hnot, hnone]
        · simp [Except.toOption, hp, his, hsome]

/-! ## Runs that end well -/

theorem length_stepsFrom {stack after : List Float} {ts : List Token}
    (h : ts.foldlM push stack = .ok after) :
    (stepsFrom stack ts).length = ts.countP Token.isOperation := by
  induction ts generalizing stack with
  | nil => rfl
  | cons t ts ih =>
    obtain ⟨next, hp, h⟩ := EvalError.bind_eq_ok.mp h
    rw [stepsFrom, hp]
    rcases stepOf_cases hp with ⟨hnot, hnone⟩ | ⟨step, rest, his, hsome, -⟩
    · simp [ih h, hnot, hnone]
    · simp [ih h, his, hsome]

theorem stepsFrom_concat {stack before after : List Float} {ts : List Token} {t : Token}
    (h : ts.foldlM push stack = .ok before) (ht : push before t = .ok after) :
    stepsFrom stack (ts ++ [t]) = stepsFrom stack ts ++ (stepOf before t after).toList := by
  induction ts generalizing stack with
  | nil =>
    cases h
    simp [stepsFrom, ht]
  | cons u ts ih =>
    obtain ⟨next, hp, h⟩ := EvalError.bind_eq_ok.mp h
    simp [stepsFrom, hp, ih h]

theorem result_of_operation {ts : List Token} {t : Token} {x : Float}
    (ht : t.isOperation = true) (h : evaluate (ts ++ [t]) = .ok x) :
    ∀ last ∈ (stepsFrom [] (ts ++ [t])).getLast?, last.result = x := by
  obtain ⟨after, hrun, hx⟩ := EvalError.bind_eq_ok.mp h
  rw [List.foldlM_append] at hrun
  obtain ⟨before, hb, -⟩ := EvalError.bind_eq_ok.mp hrun
  rw [← List.foldlM_append, foldlM_push_concat t hb] at hrun
  rcases stepOf_cases hrun with ⟨hnot, -⟩ | ⟨step, rest, -, hsome, rfl⟩
  · rw [ht] at hnot
    cases hnot
  · rw [stepsFrom_concat hb hrun, hsome, Option.toList_some, List.getLast?_concat]
    intro last hlast
    cases hlast
    cases rest with
    | nil => exact Except.ok.inj hx
    | cons y rest => cases hx

theorem result_of_evaluate {ts : List Token} {x : Float} (h : evaluate ts = .ok x) :
    ∀ last ∈ (stepsFrom [] ts).getLast?, last.result = x := by
  obtain ⟨e, rfl, -⟩ := Expr.evaluate_eq_ok_iff.mp h
  cases e with
  | number y => exact fun last hlast => by cases hlast
  | call f e => exact result_of_operation rfl h
  | binary op l r => exact result_of_operation rfl h

theorem countP_isOperation_of_ofInfix {ts out : List Token} (h : ofInfix ts = .ok out) :
    out.countP Token.isOperation = ts.countP Token.isOperation := by
  rw [(perm_of_ofInfix h).countP_eq, List.countP_filter]
  refine List.countP_congr fun t _ => ?_
  cases t <;> simp [Token.isOperation, Token.isParenthesis]

end Postfix

/-! ## Calculations -/

theorem calculateTraced_of_ofText {expression : Text} {ts : List Token} (trace : Trace)
    (h : Postfix.ofText expression = .ok ts) :
    calculateTraced expression trace =
      (Postfix.evaluate ts, (trace.notePostfix ts).extend (Postfix.stepsFrom [] ts)) := by
  rw [calculateTraced, h]
  exact Postfix.evaluateFrom_eq [] _ ts

/-- A trace changes no result, and without detailed mode nothing changes in it. In detailed
mode it keeps its steps and gets, in order, one for each operation applied up to the end or
the first error, with the value it gave, and the postfix form, if there is one. A calculation
that succeeds applies all operations of the expression, and the last of them gives the
result. -/
theorem calculateTraced_observes (expression : Text) (trace : Trace) :
    (calculateTraced expression trace).1 = calculate expression ∧
    (trace.detailed = false → (calculateTraced expression trace).2 = trace) ∧
    (trace.detailed = true →
      (∀ err, Postfix.ofText expression = .error err →
        (calculateTraced expression trace).2 = trace) ∧
      ∀ ts, Postfix.ofText expression = .ok ts → ∃ new,
        (calculateTraced expression trace).2 =
          { trace with steps := trace.steps ++ new, postfixText := some (Token.render ts) } ∧
        new = (List.range ts.length).filterMap (Postfix.stepAt? [] ts) ∧
        new.map Step.result = (List.range ts.length).filterMap (Postfix.applied? [] ts) ∧
        ∀ x, calculate expression = .ok x →
          (∃ tokens, Token.scan expression = .ok tokens ∧
            new.length = tokens.countP Token.isOperation) ∧
          ∀ last ∈ new.getLast?, last.result = x) := by
  cases h : Postfix.ofText expression with
  | error err =>
    have htraced : calculateTraced expression trace = (.error err, trace) := by
      rw [calculateTraced, h]
    rw [htraced]
    refine ⟨?_, fun _ => rfl, fun _ => ⟨fun _ _ => rfl, fun ts hts => ?_⟩⟩
    · rw [calculate, h]
      rfl
    · cases hts
  | ok ts =>
    have hvalue : calculate expression = Postfix.evaluate ts := by
      rw [calculate, h]
      rfl
    rw [calculateTraced_of_ofText trace h, hvalue]
    refine ⟨rfl, fun hquiet => ?_, fun hdetailed => ⟨fun err herr => ?_, fun ts' hts => ?_⟩⟩
    · simp [Trace.notePostfix, Trace.extend, hquiet]
    · cases herr
    cases hts
    refine ⟨Postfix.stepsFrom [] ts, ?_, Postfix.stepsFrom_eq [] ts, ?_, fun x hx => ?_⟩
    · simp [Trace.notePostfix, Trace.extend, hdetailed]
    · rw [Postfix.stepsFrom_eq, List.map_filterMap]
      exact congrArg (List.filterMap · _) (funext (Postfix.result_stepAt? [] ts))
    · obtain ⟨tokens, hscan, hinfix⟩ := EvalError.bind_eq_ok.mp h
      obtain ⟨after, hrun, -⟩ := EvalError.bind_eq_ok.mp hx
      refine ⟨⟨tokens, hscan, ?_⟩, Postfix.result_of_evaluate hx⟩
      rw [Postfix.length_stepsFrom hrun, Postfix.countP_isOperation_of_ofInfix hinfix]

/-- Two steps are made before the division by zero. -/
theorem calculateTraced_observes_up_to_division :
    let earlier : Trace := { detailed := true, steps := [⟨"1 + 1".toList, 2⟩] }
    let expression := "sqrt(9 + 16) / 0".toList
    (calculateTraced expression earlier).1 = .error .divisionByZero ∧
      ∃ ts new, Postfix.ofText expression = .ok ts ∧
        (calculateTraced expression earlier).2 =
          { earlier with steps := earlier.steps ++ new, postfixText := some (Token.render ts) } ∧
        new.map Step.result = [25, 5] := by
  intro earlier expression
  obtain ⟨hresult, -, hdetailed⟩ := calculateTraced_observes expression earlier
  have hts : Postfix.ofText expression = .ok [.number 9, .number 16, .operator .add,
    .function .sqrt, .number 0, .operator .div] := by decide +kernel
  have hvalue : calculate expression = .error .divisionByZero := by decide +kernel
  obtain ⟨new, htrace, -, hvalues, -⟩ := (hdetailed rfl).2 _ hts
  refine ⟨hresult.trans hvalue, _, new, hts, htrace, hvalues.trans ?_⟩
  decide +kernel

end Calculator
