import Calculator.Decimal.Numeral
import Calculator.Operator
import Calculator.Screen.Style

/-!
# Highlighted expressions

An expression is shown in spans: each run of letters, each run of digits and
points, and every other character alone. Function names, numbers and operators
have styles of their own; the rest has the style of the line.
-/

namespace Calculator.Screen

open Decimal (isNumeralChar)

def wordStyle (base : Style) (word : Text) : Style :=
  if (Function.ofName? word).isSome then .strong .lightBlue else base

/-- The style of a character that is no letter, digit or point. -/
def symbolStyle (base : Style) (c : Char) : Style :=
  if (Operator.ofSymbol? c).isSome then .strong .yellow
  else if c = ' ' then {}
  else base

def highlight (base : Style) : Text → List Span
  | [] => []
  | c :: cs =>
    have := Text.length_dropWhile_le Char.isAlpha cs
    have := Text.length_dropWhile_le isNumeralChar cs
    if c.isAlpha then
      let word := c :: cs.takeWhile Char.isAlpha
      ⟨word, wordStyle base word⟩ :: highlight base (cs.dropWhile Char.isAlpha)
    else if isNumeralChar c then
      ⟨c :: cs.takeWhile isNumeralChar, .of .lightGreen⟩ ::
        highlight base (cs.dropWhile isNumeralChar)
    else ⟨[c], symbolStyle base c⟩ :: highlight base cs
termination_by cs => cs.length

end Calculator.Screen
