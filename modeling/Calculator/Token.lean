import Calculator.Operator
import Calculator.Decimal.Shortest

/-!
# Tokens

The pieces of an expression, and the text of one. Numbers are written with their
shortest decimal.
-/

namespace Calculator

inductive Token where
  | number (x : Float)
  | operator (op : Operator)
  | function (f : Function)
  | opening
  | closing
  deriving DecidableEq

namespace Token

/-- Whether an operand comes next, so that a minus sign is part of a number. -/
def awaitsOperand : Token → Bool
  | operator _ | opening => true
  | _ => false

def isName : Token → Bool
  | function _ => true
  | _ => false

def isNumber : Token → Bool
  | number _ => true
  | _ => false

def isParenthesis : Token → Bool
  | opening | closing => true
  | _ => false

/-- Whether the token is applied to values. -/
def isOperation : Token → Bool
  | operator _ | function _ => true
  | _ => false

def text : Token → Text
  | number x => Decimal.shortest x
  | operator op => [op.symbol]
  | function f => f.name
  | opening => ['(']
  | closing => [')']

/-- Tokens separated by single spaces. -/
def render (ts : List Token) : Text := [' '].intercalate (ts.map text)

end Token

end Calculator
