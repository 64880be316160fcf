import Calculator.Token

/-!
# From infix to postfix

`Yard` holds the operators, functions and open groups that still wait for an
operand, and the tokens already put out. A closing parenthesis puts out all that
waits inside its group, and the function right before the group. An operator first
puts out the waiting operators that bind before it.
-/

namespace Calculator.Postfix

structure Yard where
  /-- Waiting tokens, innermost first. -/
  waiting : List Token := []
  /-- Tokens put out, latest first. -/
  done : List Token := []
  deriving DecidableEq

/-- Whether a waiting token is an operator that goes out before `incoming`. -/
def goesBefore (incoming : Operator) : Token → Bool
  | .operator top => top.bindsBefore incoming
  | _ => false

def Yard.wait (y : Yard) (t : Token) : Yard := { y with waiting := t :: y.waiting }

def Yard.put (y : Yard) (t : Token) : Yard := { y with done := t :: y.done }

/-- Puts out the waiting tokens up to the first that fails `p`. -/
def Yard.flush (y : Yard) (p : Token → Bool) : Yard where
  waiting := y.waiting.dropWhile p
  done := (y.waiting.takeWhile p).reverse ++ y.done

def Yard.take (y : Yard) : Token → Except EvalError Yard
  | .number x => .ok (y.put (.number x))
  | .function f => .ok (y.wait (.function f))
  | .opening => .ok (y.wait .opening)
  | .closing =>
    let inner := y.flush (· != .opening)
    match inner.waiting with
    | [] => .error .mismatchedParenthesis
    | _ :: .function f :: outer => .ok ⟨outer, .function f :: inner.done⟩
    | _ :: outer => .ok ⟨outer, inner.done⟩
  | .operator op => .ok ((y.flush (goesBefore op)).wait (.operator op))

/-- Puts out all that waits at the end; an open group is an error. -/
def Yard.finish (y : Yard) : Except EvalError (List Token) :=
  if y.waiting.contains .opening then .error .mismatchedParenthesis
  else .ok (y.done.reverse ++ y.waiting)

def ofInfix (ts : List Token) : Except EvalError (List Token) :=
  ts.foldlM Yard.take {} >>= Yard.finish

end Calculator.Postfix
