import Calculator.EvalError

/-!
# Operators and functions

The five binary operators with their symbols, precedence and grouping, and the
square root. `apply` computes; dividing by zero and taking the root of a negative
number are refused.
-/

namespace Calculator

inductive Operator where
  | add | sub | mul | div | pow
  deriving DecidableEq, Repr

/-- How operators of one precedence group. -/
inductive Grouping where
  | left | right
  deriving DecidableEq, Repr

namespace Operator

def all : List Operator := [mul, add, sub, div, pow]

def symbol : Operator → Char
  | add => '+'
  | sub => '-'
  | mul => '*'
  | div => '/'
  | pow => '^'

def ofSymbol? : Char → Option Operator
  | '+' => some add
  | '-' => some sub
  | '*' => some mul
  | '/' => some div
  | '^' => some pow
  | _ => none

/-- A higher precedence binds tighter. -/
def precedence : Operator → Nat
  | add | sub => 1
  | mul | div => 2
  | pow => 3

def grouping : Operator → Grouping
  | pow => .right
  | _ => .left

/-- Whether `top`, waiting for its right operand, takes it before `incoming` does. -/
def bindsBefore (top incoming : Operator) : Bool :=
  match incoming.grouping with
  | .left => incoming.precedence ≤ top.precedence
  | .right => incoming.precedence < top.precedence

def apply (op : Operator) (left right : Float) : Except EvalError Float :=
  match op with
  | add => .ok (left + right)
  | sub => .ok (left - right)
  | mul => .ok (left * right)
  | div => if right == 0.0 then .error .divisionByZero else .ok (left / right)
  | pow => .ok (left.pow right)

@[simp] theorem ofSymbol?_symbol (op : Operator) : ofSymbol? op.symbol = some op := by
  cases op <;> rfl

theorem symbol_of_ofSymbol? {c : Char} {op : Operator} (h : ofSymbol? c = some op) :
    op.symbol = c := by
  unfold ofSymbol? at h
  split at h <;> cases h <;> rfl

end Operator

inductive Function where
  | sqrt
  deriving DecidableEq, Repr

namespace Function

def name : Function → Text
  | sqrt => "sqrt".toList

def ofName? (cs : Text) : Option Function :=
  if cs = sqrt.name then some sqrt else none

/-- The root of `-0.0` is `0.0`. -/
def apply (f : Function) (x : Float) : Except EvalError Float :=
  match f with
  | sqrt => if x < 0.0 then .error .negativeSquareRoot else .ok x.sqrt.abs

@[simp] theorem ofName?_name (f : Function) : ofName? f.name = some f := by
  cases f; rfl

theorem name_of_ofName? {cs : Text} {f : Function} (h : ofName? cs = some f) : f.name = cs := by
  unfold ofName? at h
  split at h
  · cases h; simp_all
  · cases h

end Function

end Calculator
