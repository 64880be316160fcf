import Calculator.Text.Basic

/-!
# Terminal output

What the console sends to its terminal: text, and three control sequences.
-/

namespace Calculator.Console

inductive Output where
  | text (cs : Text)
  | clearLine
  | goTo (column row : Nat)
  | askPosition
  deriving DecidableEq, Repr

def Output.chars : Output → Text
  | text cs => cs
  | clearLine => "\x1b[2K".toList
  | goTo column row =>
    "\x1b[".toList ++ Text.ofNat row ++ [';'] ++ Text.ofNat column ++ ['H']
  | askPosition => "\x1b[6n".toList

end Calculator.Console
