import Calculator.Decimal.Double
import Calculator.Text.Basic

/-!
# Decimal numerals

A numeral is a run of digits with at most one point in it and at least one
digit. `fixed places k` writes `k / 10 ^ places`; `readFraction?` reads a numeral
as an exact fraction, and `readDouble?` takes the double nearest to it.
-/

namespace Calculator.Decimal

/-- `k / 10 ^ places` with that many digits after the point; no point without
places. -/
def fixed (places k : Nat) : Text :=
  if places = 0 then Text.ofNat k
  else Text.ofNat (k / pow10 places) ++
    '.' :: (Text.ofNat (k % pow10 places)).leftpad places '0'

/-- `k * 10 ^ e` written positionally. -/
def positional (k : Nat) (e : Int) : Text :=
  fixed (-e).toNat (k * pow10 e.toNat)

def isNumeralChar (c : Char) : Bool := c.isDigit || c == '.'

/-- The numerator and the power of ten that a numeral denotes. -/
def readFraction? (cs : Text) : Option (Nat × Nat) :=
  let whole := cs.takeWhile Char.isDigit
  let tail := cs.dropWhile Char.isDigit
  let places := tail.drop 1
  if tail.head?.all (· == '.') && places.all Char.isDigit && !(whole ++ places).isEmpty then
    some (Nat.ofDigitChars 10 (whole ++ places) 0, pow10 places.length)
  else
    none

/-- The double nearest to a numeral, with a sign. -/
def readDouble? (negative : Bool) (cs : Text) : Option Float :=
  (readFraction? cs).map fun r => nearestDouble negative r.1 r.2

def signText (negative : Bool) : Text := if negative then ['-'] else []

def intText (n : Int) : Text := signText (n < 0) ++ Text.ofNat n.natAbs

end Calculator.Decimal
