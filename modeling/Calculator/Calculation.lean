import Calculator.Postfix.Evaluate
import Calculator.Postfix.Reorder
import Calculator.Token.Scan

/-!
# Calculations

The value of an expression: its tokens, put into postfix order and evaluated. The
first error of the three passes is the answer.
-/

namespace Calculator

def Postfix.ofText (expression : Text) : Except EvalError (List Token) :=
  Token.scan expression >>= Postfix.ofInfix

def calculate (expression : Text) : Except EvalError Float :=
  Postfix.ofText expression >>= Postfix.evaluate

def Trace.notePostfix (trace : Trace) (ts : List Token) : Trace :=
  if trace.detailed then { trace with postfixText := some (Token.render ts) } else trace

def calculateTraced (expression : Text) (trace : Trace) : Except EvalError Float × Trace :=
  match Postfix.ofText expression with
  | .error e => (.error e, trace)
  | .ok ts => Postfix.evaluateTraced ts (trace.notePostfix ts)

@[simp] theorem Trace.detailed_notePostfix (trace : Trace) (ts : List Token) :
    (trace.notePostfix ts).detailed = trace.detailed := by
  unfold notePostfix
  split <;> rfl

@[simp] theorem calculateTraced_detailed (expression : Text) (trace : Trace) :
    (calculateTraced expression trace).2.detailed = trace.detailed := by
  unfold calculateTraced
  cases Postfix.ofText expression with
  | error e => rfl
  | ok ts => exact (Postfix.evaluateFrom_detailed [] _ ts).trans (trace.detailed_notePostfix ts)

end Calculator
