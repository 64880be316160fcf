import Calculator.Postfix.Evaluate

/-!
# Expression trees

What an expression means: a tree of operations over numbers. `value` computes it
from the leaves up, left operand first; `postorder` lists its tokens, operands
before operators. Evaluating the postorder on a stack gives the value of the tree.
-/

namespace Calculator

inductive Expr where
  | number (x : Float)
  | call (f : Function) (argument : Expr)
  | binary (op : Operator) (left right : Expr)
  deriving DecidableEq

namespace Expr

def postorder : Expr → List Token
  | number x => [.number x]
  | call f e => e.postorder ++ [.function f]
  | binary op l r => l.postorder ++ r.postorder ++ [.operator op]

/-- The value of the tree, or the first error met. -/
def value : Expr → Except EvalError Float
  | number x => .ok x
  | call f e => e.value.bind f.apply
  | binary op l r => l.value.bind fun a => r.value.bind fun b => op.apply a b

/-- A tree followed by more tokens puts its value on the stack. -/
theorem foldlM_push_postorder (e : Expr) (stack : List Float) (rest : List Token) :
    (e.postorder ++ rest).foldlM Postfix.push stack =
      e.value.bind fun x => rest.foldlM Postfix.push (x :: stack) := by
  induction e generalizing stack rest with
  | number x => rfl
  | call f e ih =>
    rw [postorder, List.append_assoc, ih, value]
    cases e.value with
    | error err => rfl
    | ok x => cases h : f.apply x <;> simp [Postfix.push, Except.bind, Except.map, bind, h]
  | binary op l r ihl ihr =>
    rw [postorder, List.append_assoc, List.append_assoc, ihl, value]
    cases l.value with
    | error err => rfl
    | ok a =>
      change (r.postorder ++ ([Token.operator op] ++ rest)).foldlM Postfix.push (a :: stack) = _
      rw [ihr]
      cases r.value with
      | error err => rfl
      | ok b => cases h : op.apply a b <;> simp [Postfix.push, Except.bind, Except.map, bind, h]

theorem evaluate_postorder (e : Expr) : Postfix.evaluate e.postorder = e.value := by
  have h := foldlM_push_postorder e [] []
  rw [List.append_nil] at h
  unfold Postfix.evaluate
  rw [h]
  cases e.value <;> rfl

end Expr

end Calculator
