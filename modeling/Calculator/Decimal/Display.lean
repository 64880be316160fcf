import Calculator.Decimal.Shortest

/-!
# Displayed values

Results are shown with six places, without zeros at the end: positionally from
`10 ^ -5` to `10 ^ 10`, with an exponent outside. Both forms round the exact
value of the double, halves to even.
-/

namespace Calculator.Decimal

/-- Places shown after the point. -/
def displayPlaces : Nat := 6

/-- The value in units, to six places. -/
def displayFixed (units : Nat) : Text :=
  let text := fixed displayPlaces (roundEven (units * pow10 displayPlaces) unitsPerOne)
  Text.dropEndWhile (· == '.') (Text.dropEndWhile (· == '0') text)

/-- A double to six places, zeros at the end included. -/
def toPlaces (x : Float) : Text :=
  match Exact.ofFloat x with
  | .nan => "NaN".toList
  | .infinite negative => signText negative ++ "inf".toList
  | .finite negative units =>
    signText negative ++ fixed displayPlaces (roundEven (units * pow10 displayPlaces) unitsPerOne)

/-- The seven leading digits of a value in units, as an integer, and the power of
ten of the first of them. -/
def leadingDigits (units : Nat) : Nat × Int :=
  let top := leadingExponent units
  let e := top - displayPlaces
  let k := roundEven (units * pow10 (-e).toNat) (unitsPerOne * pow10 e.toNat)
  if k < pow10 (displayPlaces + 1) then (k, top) else (k / 10, top + 1)

/-- The value in units, as one digit, six places and an exponent. -/
def displayScientific (units : Nat) : Text :=
  let (k, e) := leadingDigits units
  fixed displayPlaces k ++ 'e' :: intText e

/-- An equation of functions: at an argument, the digits would be computed to compare its
sides. -/
theorem displayScientific_eq : displayScientific = fun units =>
    match leadingDigits units with
    | (k, e) => fixed displayPlaces k ++ 'e' :: intText e := by
  delta displayScientific
  with_reducible rfl

/-- The largest magnitude shown positionally, in units. -/
def displayMost : Nat := pow10 10 * unitsPerOne

/-- The least positive magnitude shown positionally: the double nearest to
`10 ^ -5`, in units. -/
def displayLeast : Nat := unitsOfBits (nearestBits 1 (pow10 5))

def display (x : Float) : Text :=
  match Exact.ofFloat x with
  | .nan => "NaN".toList
  | .infinite negative => signText negative ++ "inf".toList
  | .finite negative units =>
    signText negative ++
      if displayMost < units ∨ (units < displayLeast ∧ units ≠ 0) then displayScientific units
      else displayFixed units

end Calculator.Decimal
