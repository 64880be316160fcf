import Calculator.Text.Basic

/-!
# Keys

The keys of a terminal, and one press of a key with its modifiers.
-/

namespace Calculator

inductive Key where
  | char (c : Char)
  | enter | tab | backspace | delete | insert | escape
  | left | right | up | down
  | lineStart | lineEnd
  | pageUp | pageDown
  | function (n : Nat)
  deriving DecidableEq, Repr

structure Press where
  key : Key
  ctrl : Bool := false
  alt : Bool := false
  deriving DecidableEq, Repr

end Calculator
