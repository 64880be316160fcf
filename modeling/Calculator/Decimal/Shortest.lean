import Calculator.Decimal.Numeral

/-!
# Shortest decimal of a double

`shortest x` has the fewest significant digits that read back as `x`; of several
such decimals it is the one nearest to `x`, the larger one on a tie. It is always
written positionally. Grids of powers of ten are tried from coarse to fine, and
on each of them the two neighbours of the value.
-/

namespace Calculator.Decimal

/-- The power of ten of the leading digit of a value in units. -/
def leadingExponent (units : Nat) : Int :=
  (Text.ofNat (units * pow10 324 / unitsPerOne)).length - 325

/-- Whether `k * 10 ^ e` reads back as the double with the given pattern. -/
def readsBack (bits k : Nat) (e : Int) : Bool :=
  nearestBits (k * pow10 e.toNat) (pow10 (-e).toNat) == bits

/-- Of `low` and its successor the one that satisfies `p`; if both do, `low` when it is
the closer. -/
def pick? (p : Nat → Bool) (low : Nat) (closer : Bool) : Option Nat :=
  match p low, p (low + 1) with
  | true, true => if closer then some low else some (low + 1)
  | true, false => some low
  | false, true => some (low + 1)
  | false, false => none

/-- The closest multiple of `10 ^ e` that reads back, among the two around the
value of a pattern. -/
def gridPoint? (bits : Nat) (e : Int) : Option Nat :=
  let num := unitsOfBits bits * pow10 (-e).toNat
  let den := unitsPerOne * pow10 e.toNat
  let low := num / den
  pick? (readsBack bits · e) low (2 * num < (2 * low + 1) * den)

theorem of_pick? {p : Nat → Bool} {low k : Nat} {closer : Bool}
    (h : pick? p low closer = some k) : p k = true := by
  unfold pick? at h
  split at h
  · rename_i hlow hhigh
    split at h <;> cases h
    · exact hlow
    · exact hhigh
  · rename_i hlow _
    cases h
    exact hlow
  · rename_i _ hhigh
    cases h
    exact hhigh
  · cases h

/-- All digits of a value in units. -/
def exactDigits (units : Nat) : Text :=
  fixed 1074 (units * pow10 1074 / unitsPerOne)

/-- The shortest decimal of a finite pattern. Seventeen digits always suffice. -/
def shortestOfBits (bits : Nat) : Text :=
  if bits = 0 then ['0']
  else
    let top := leadingExponent (unitsOfBits bits) + 1
    let found := (List.range 18).findSome? fun (n : Nat) =>
      (gridPoint? bits (top - n)).map fun k => positional k (top - n)
    found.getD (exactDigits (unitsOfBits bits))

/-- The shortest text that reads back as `x`. -/
def shortest (x : Float) : Text :=
  let bits := magnitudeBits x
  if bits < infinityBits then signText (isNegative x) ++ shortestOfBits bits
  else if bits = infinityBits then signText (isNegative x) ++ "inf".toList
  else "NaN".toList

end Calculator.Decimal
