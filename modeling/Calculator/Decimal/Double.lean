import Calculator.Decimal.Rounding

/-!
# Doubles as exact values

The non-negative finite doubles, in the order of their bit patterns, are whole
multiples of `2 ^ -1074`. `unitsOfBits` counts those multiples, `nearestBits`
goes back from any fraction to the bit pattern of the closest double, and
`Exact` is what a double stands for: a sign and a count of units, an infinity,
or no number.
-/

namespace Calculator.Decimal

/-- How many units of the least double make one. -/
def unitsPerOne : Nat := pow2 1074

/-- How many patterns share an exponent. -/
def binade : Nat := pow2 52

/-- The pattern of positive infinity; smaller patterns are finite. -/
def infinityBits : Nat := 2047 * binade

/-- The value of a finite pattern without sign, in units. -/
def unitsOfBits (bits : Nat) : Nat :=
  let scale := bits / binade - 1
  (bits - scale * binade) * pow2 scale

/-- The pattern of the double nearest to `num / den`, an even one on a tie;
infinity from half a step above the greatest double. -/
def nearestBits (num den : Nat) : Nat :=
  let units := num * unitsPerOne
  let scale := Nat.log2 (units / den) - 52
  min (scale * binade + roundEven units (den * pow2 scale)) infinityBits

/-- What a double stands for. -/
inductive Exact where
  | nan
  | infinite (negative : Bool)
  | finite (negative : Bool) (units : Nat)
  deriving DecidableEq, Repr

/-- The pattern of the sign alone. -/
def signBit : Nat := pow2 63

/-- The double with a given sign and pattern of the magnitude. -/
def doubleOfBits (negative : Bool) (bits : Nat) : Float :=
  Float.ofBits (UInt64.ofNat (if negative then signBit + bits else bits))

def isNegative (x : Float) : Bool := signBit ≤ x.toBits.toNat

def magnitudeBits (x : Float) : Nat := x.toBits.toNat % signBit

def Exact.ofFloat (x : Float) : Exact :=
  let bits := magnitudeBits x
  if bits < infinityBits then .finite (isNegative x) (unitsOfBits bits)
  else if bits = infinityBits then .infinite (isNegative x)
  else .nan

/-- The double nearest to `num / den`, with a sign. -/
def nearestDouble (negative : Bool) (num den : Nat) : Float :=
  doubleOfBits negative (nearestBits num den)

end Calculator.Decimal
