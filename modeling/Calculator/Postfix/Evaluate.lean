import Calculator.Token
import Calculator.Decimal.Display

/-!
# Evaluating a postfix sequence

`push` applies one token to a stack of values, `evaluate` a whole sequence. A
`Trace` can watch: in detailed mode it collects one `Step` for every operator and
function applied, and `evaluateTraced` hands it along.
-/

namespace Calculator

structure Step where
  operation : Text
  result : Float
  deriving DecidableEq

/-- What an evaluation leaves behind beside its value. -/
structure Trace where
  detailed : Bool
  steps : List Step := []
  postfixText : Option Text := none
  deriving DecidableEq

def Trace.record (trace : Trace) (step : Option Step) : Trace :=
  if trace.detailed then { trace with steps := trace.steps ++ step.toList } else trace

@[simp] theorem Trace.detailed_record (trace : Trace) (step : Option Step) :
    (trace.record step).detailed = trace.detailed := by
  unfold record
  split <;> rfl

namespace Postfix

/-- Applies a token to the stack, whose head is the last value. -/
def push : List Float → Token → Except EvalError (List Float)
  | stack, .number x => .ok (x :: stack)
  | x :: stack, .function f => (f.apply x).map (· :: stack)
  | right :: left :: stack, .operator op => (op.apply left right).map (· :: stack)
  | _, _ => .error .malformedExpression

/-- The value of a sequence is what it leaves alone on the stack. -/
def single : List Float → Except EvalError Float
  | [x] => .ok x
  | _ => .error .malformedExpression

def evaluate (ts : List Token) : Except EvalError Float :=
  ts.foldlM push [] >>= single

/-- The step made by a token on a stack, which became `after`. -/
def stepOf : List Float → Token → List Float → Option Step
  | x :: _, .function f, result :: _ =>
    some ⟨f.name ++ '(' :: Decimal.display x ++ [')'], result⟩
  | right :: left :: _, .operator op, result :: _ =>
    some ⟨Decimal.display left ++ [' ', op.symbol, ' '] ++ Decimal.display right, result⟩
  | _, _, _ => none

/-- Evaluates on a given stack, with a trace. -/
def evaluateFrom (stack : List Float) (trace : Trace) :
    List Token → Except EvalError Float × Trace
  | [] => (single stack, trace)
  | t :: ts =>
    match push stack t with
    | .error e => (.error e, trace)
    | .ok after => evaluateFrom after (trace.record (stepOf stack t after)) ts

def evaluateTraced (ts : List Token) (trace : Trace) : Except EvalError Float × Trace :=
  evaluateFrom [] trace ts

@[simp] theorem evaluateFrom_detailed (stack : List Float) (trace : Trace) (ts : List Token) :
    (evaluateFrom stack trace ts).2.detailed = trace.detailed := by
  induction ts generalizing stack trace with
  | nil => rfl
  | cons t ts ih =>
    rw [evaluateFrom]
    cases push stack t with
    | error e => rfl
    | ok after => exact (ih after _).trans (trace.detailed_record _)

end Postfix

end Calculator
