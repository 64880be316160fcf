import Calculator.Expr

/-!
# The grammar of expressions

Sums of products of powers of atoms. Addition, subtraction, multiplication and
division group to the left, powers to the right; an atom is a number, a group in
parentheses, or a function in front of such a group. `Derives level ts e` says that
the tokens `ts` read as the tree `e` on that level.
-/

namespace Calculator.Expr

/-- The levels of the grammar, loosest first. -/
inductive Level where
  | sum | product | power | atom
  deriving DecidableEq, Repr

inductive Derives : Level → List Token → Expr → Prop where
  | sum {op : Operator} {l r : List Token} {a b : Expr} (h : op = .add ∨ op = .sub) :
      Derives .sum l a → Derives .product r b →
        Derives .sum (l ++ .operator op :: r) (.binary op a b)
  | product {op : Operator} {l r : List Token} {a b : Expr} (h : op = .mul ∨ op = .div) :
      Derives .product l a → Derives .power r b →
        Derives .product (l ++ .operator op :: r) (.binary op a b)
  | power {l r : List Token} {a b : Expr} :
      Derives .atom l a → Derives .power r b →
        Derives .power (l ++ .operator .pow :: r) (.binary .pow a b)
  | number (x : Float) : Derives .atom [.number x] (.number x)
  | group {ts : List Token} {e : Expr} :
      Derives .sum ts e → Derives .atom (.opening :: ts ++ [.closing]) e
  | call {ts : List Token} {e : Expr} (f : Function) :
      Derives .sum ts e → Derives .atom (.function f :: .opening :: ts ++ [.closing]) (.call f e)
  | ofProduct {ts : List Token} {e : Expr} : Derives .product ts e → Derives .sum ts e
  | ofPower {ts : List Token} {e : Expr} : Derives .power ts e → Derives .product ts e
  | ofAtom {ts : List Token} {e : Expr} : Derives .atom ts e → Derives .power ts e

end Calculator.Expr
