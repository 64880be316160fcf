import Calculator.Proofs.Decimal.Shown
import Calculator.Proofs.Decimal.Written

/-!
# What the display shows

The text for a finite double denotes a rational of the same sign, next to the exact value of
the double: half a unit of the last of six places away at most. Magnitudes from `10 ^ -5` to
`10 ^ 10` are written positionally, with all digits of the integer part and no zero at the end
of the places. A larger double is not shown as a smaller rational.
-/

namespace Calculator.Decimal

/-! ## Positional texts -/

/-- All digits of the integer part of `v` behind a sign, and a point only with places behind
it, which do not end in a zero. -/
def IsPositional (text : Text) (v : ℚ) : Prop :=
  ∃ negative places, Places places ∧ text = signText negative ++ pointed ⌊|v|⌋₊ places

theorem timesAt_displayPlaces (units : Nat) :
    timesAt (-displayPlaces) units = roundEven (units * pow10 displayPlaces) unitsPerOne := by
  have hden : pow10 (-(displayPlaces : ℤ)).toNat = 1 := rfl
  rw [timesAt, neg_neg, Int.toNat_natCast, hden, Nat.mul_one]

theorem displayFixed_spec (units : Nat) :
    ∃ places num, Places places ∧ displayFixed units = pointed ⌊fixedValue units⌋₊ places ∧
      readFraction? (displayFixed units) = some (num, pow10 places.length) ∧
      (num / (pow10 places.length : Nat) : ℚ) = fixedValue units := by
  obtain ⟨k, hk⟩ : ∃ k, timesAt (-displayPlaces) units = k := ⟨_, rfl⟩
  obtain ⟨places, zeros, hplaces, hlength, htext, hvalue⟩ :=
    exists_trimmed (by decide : 0 < displayPlaces) k
  have hfixed : fixedValue units = (k : ℚ) / (pow10 displayPlaces : Nat) := by
    rw [fixedValue, roundedAt, hk, zpow_neg, zpow_natCast, cast_pow10, div_eq_mul_inv]
  have hfloor : ⌊fixedValue units⌋₊ = k / pow10 displayPlaces := by
    rw [hfixed, Nat.floor_div_eq_div]
  have hdisplay : displayFixed units = pointed (k / pow10 displayPlaces) places := by
    rw [displayFixed, ← timesAt_displayPlaces, hk, htext]
  refine ⟨places, _, hplaces, hfloor ▸ hdisplay, hdisplay ▸ readFraction?_pointed _ hplaces, ?_⟩
  generalize Nat.ofDigitChars 10 places (k / pow10 displayPlaces) = num at *
  have hsplit : pow10 displayPlaces = pow10 places.length * pow10 zeros := by
    rw [← hlength]
    exact Nat.pow_add 10 _ _
  have hzeros : (pow10 zeros : ℚ) ≠ 0 := Nat.cast_ne_zero.mpr (pow10_pos zeros).ne'
  rw [hfixed, ← hvalue, hsplit, Nat.cast_mul, Nat.cast_mul, mul_div_mul_right _ _ hzeros]

/-! ## Texts with an exponent -/

/-- A digit that is not zero, six places and the exponent `e`, behind a sign. -/
def IsScientific (text : Text) (e : ℤ) : Prop :=
  ∃ negative k, pow10 6 ≤ k ∧ k < pow10 7 ∧
    text = signText negative ++ (fixed 6 k ++ 'e' :: intText e)

theorem displayScientific_of_leadingDigits {units k : Nat} {e : ℤ}
    (h : leadingDigits units = (k, e)) :
    displayScientific units = fixed displayPlaces k ++ 'e' :: intText e := by
  rw [displayScientific_eq]
  beta_reduce
  rw [h]

/-! ## Signs -/

section
variable (negative : Bool)

theorem abs_signFactor : |(signFactor negative : ℚ)| = 1 := by
  cases negative <;> simp [signFactor]

theorem abs_signFactor_mul {q : ℚ} (h : 0 ≤ q) : |signFactor negative * q| = q := by
  rw [abs_mul, abs_signFactor, one_mul, abs_of_nonneg h]

theorem abs_signFactor_mul_sub (q r : ℚ) :
    |signFactor negative * q - signFactor negative * r| = |q - r| := by
  rw [← mul_sub, abs_mul, abs_signFactor, one_mul]

theorem sign_signFactor_mul_shownValue (units : Nat) :
    SignType.sign (signFactor negative * shownValue units) =
      SignType.sign (signFactor negative * size units) := by
  rw [sign_mul, sign_mul]
  refine congrArg (SignType.sign (signFactor negative : ℚ) * ·) ?_
  rcases Nat.eq_zero_or_pos units with rfl | h
  · rw [shownValue_zero, size_zero]
  · rw [sign_pos (shownValue_pos h), sign_pos (size_pos h)]

end

theorem signFactor_mul_shownValue_mono {s t : Bool} {u v : Nat}
    (h : signFactor s * size u ≤ signFactor t * size v) :
    signFactor s * shownValue u ≤ signFactor t * shownValue v := by
  have hu := shownValue_nonneg u
  have hv := shownValue_nonneg v
  cases s <;> cases t <;> simp only [signFactor, ↓reduceIte, Bool.false_eq_true, Int.cast_one,
    Int.cast_neg, one_mul, neg_mul, neg_le_neg_iff] at h ⊢
  · exact shownValue_mono (size_le_size.mp h)
  · have hu0 : u = 0 := Nat.eq_zero_of_not_pos fun hpos => by
      linarith [size_pos hpos, size_nonneg v]
    have hv0 : v = 0 := Nat.eq_zero_of_not_pos fun hpos => by
      linarith [size_pos hpos, size_nonneg u]
    rw [hu0, hv0, shownValue_zero, neg_zero]
  · linarith
  · exact shownValue_mono (size_le_size.mp h)

/-! ## The range of the positional texts -/

/-- Zero, and the magnitudes from `10 ^ -5` to `10 ^ 10`. -/
def InPositionalRange (x : ℚ) : Prop := x = 0 ∨ 10 ^ (-5 : ℤ) ≤ |x| ∧ |x| ≤ 10 ^ (10 : ℤ)

theorem unitsOfBits_below_displayLeast :
    unitsOfBits (nearestBits 1 (pow10 5) - 1) * pow10 5 < unitsPerOne := by
  decide +kernel

theorem displayLeast_le_iff (bits : Nat) :
    displayLeast ≤ unitsOfBits bits ↔ 10 ^ (-5 : ℤ) ≤ size (unitsOfBits bits) := by
  refine ⟨fun h => zpow_le_size_displayLeast.trans (size_le_size.mpr h), fun h => ?_⟩
  by_contra hlt
  have hbits : bits < nearestBits 1 (pow10 5) :=
    Nat.lt_of_not_le fun hge => hlt (unitsOfBits_mono hge)
  have hunits : unitsOfBits bits * pow10 5 < unitsPerOne :=
    (Nat.mul_le_mul_right _ (unitsOfBits_mono (Nat.le_sub_one_of_lt hbits))).trans_lt
      unitsOfBits_below_displayLeast
  have hsize : size (unitsOfBits bits) < 10 ^ (-5 : ℤ) := by
    rw [size, zpow_neg, ← one_div, div_lt_div_iff₀ cast_unitsPerOne_pos (by positivity), one_mul]
    exact_mod_cast hunits
  exact hsize.not_ge h

theorem inPositionalRange_iff (negative : Bool) (bits : Nat) :
    InPositionalRange (signFactor negative * size (unitsOfBits bits)) ↔
      ¬ (displayMost < unitsOfBits bits ∨
        (unitsOfBits bits < displayLeast ∧ unitsOfBits bits ≠ 0)) := by
  have hmost : size (unitsOfBits bits) ≤ 10 ^ (10 : ℤ) ↔ unitsOfBits bits ≤ displayMost := by
    rw [← size_displayMost, size_le_size]
  have hzero : (signFactor negative * size (unitsOfBits bits) : ℚ) = 0 ↔ unitsOfBits bits = 0 := by
    rw [← abs_eq_zero, abs_signFactor_mul negative (size_nonneg _)]
    refine ⟨fun h => Nat.eq_zero_of_not_pos fun hpos => (size_pos hpos).ne' h, fun h => ?_⟩
    rw [h, size_zero]
  rw [InPositionalRange, hzero, abs_signFactor_mul negative (size_nonneg _),
    ← displayLeast_le_iff, hmost]
  omega

/-! ## What is shown -/

/-- The text denotes `v`, which has the sign of `x`, and is at most half a unit of the last of
six places away from `x`. -/
structure Shows (text : Text) (x v : ℚ) : Prop where
  reads : written? text = some v
  sign : SignType.sign v = SignType.sign x
  positional : InPositionalRange x → IsPositional text v ∧ |v - x| ≤ 1 / 2 * 10 ^ (-6 : ℤ)
  scientific : ¬ InPositionalRange x → ∃ e, IsScientific text e ∧ |v - x| ≤ 1 / 2 * 10 ^ (e - 6)

section
variable (negative : Bool) (units : Nat)

theorem written?_displayFixed : written? (signText negative ++ displayFixed units) =
    some (signFactor negative * fixedValue units) := by
  obtain ⟨places, num, -, -, hread, hvalue⟩ := displayFixed_spec units
  have h := written?_append negative hread (by simp : ∀ c ∈ ([] : Text).head?, c = 'e') rfl
  rwa [List.append_nil, zpow_zero, mul_one, hvalue] at h

theorem near_displayFixed : IsPositional (signText negative ++ displayFixed units)
      (signFactor negative * fixedValue units) ∧
    |signFactor negative * fixedValue units - signFactor negative * size units| ≤
      1 / 2 * 10 ^ (-6 : ℤ) := by
  obtain ⟨places, num, hplaces, htext, -, -⟩ := displayFixed_spec units
  have hnonneg : 0 ≤ fixedValue units := roundedAt_nonneg _ units
  refine ⟨⟨negative, places, hplaces, ?_⟩, ?_⟩
  · rw [abs_signFactor_mul negative hnonneg, htext]
  · rw [abs_signFactor_mul_sub]
    exact abs_roundedAt_sub_le _ units

variable {units} (h : 0 < units)
include h

theorem written?_displayScientific : written? (signText negative ++ displayScientific units) =
    some (signFactor negative * scientificValue units) := by
  rcases hd : leadingDigits units with ⟨k, e⟩
  obtain ⟨-, -, -, hvalue⟩ := leadingDigits_spec h hd
  rw [displayScientific_of_leadingDigits hd, written?_append negative (readFraction?_fixed _ k)
    (by simp) (readExponent?_intText e), ← hvalue, zpow_sub₀ (by norm_num), zpow_natCast,
    ← cast_pow10, mul_assoc, div_mul_eq_mul_div, mul_div_assoc]

theorem near_displayScientific :
    ∃ e, IsScientific (signText negative ++ displayScientific units) e ∧
      |signFactor negative * scientificValue units - signFactor negative * size units| ≤
        1 / 2 * 10 ^ (e - 6) := by
  rcases hd : leadingDigits units with ⟨k, e⟩
  obtain ⟨hlow, hhigh, htop, -⟩ := leadingDigits_spec h hd
  refine ⟨e, ⟨negative, k, hlow, hhigh, ?_⟩, ?_⟩
  · rw [displayScientific_of_leadingDigits hd]
    rfl
  · rw [abs_signFactor_mul_sub]
    refine (abs_roundedAt_sub_le _ units).trans (mul_le_mul_of_nonneg_left ?_ (by norm_num))
    exact zpow_le_zpow_right₀ (by norm_num) (Int.sub_le_sub_right htop _)

end

variable {x y : Float}

/-- The rational that a finite double is shown as. -/
def displayedValue (x : Float) : ℚ :=
  signFactor (isNegative x) * shownValue (unitsOfBits (magnitudeBits x))

theorem display_of_isFinite (hx : x.isFinite = true) :
    display x = signText (isNegative x) ++
      if displayMost < unitsOfBits (magnitudeBits x) ∨
          (unitsOfBits (magnitudeBits x) < displayLeast ∧ unitsOfBits (magnitudeBits x) ≠ 0) then
        displayScientific (unitsOfBits (magnitudeBits x))
      else displayFixed (unitsOfBits (magnitudeBits x)) := by
  have hexact : Exact.ofFloat x = .finite (isNegative x) (unitsOfBits (magnitudeBits x)) :=
    if_pos ((isFinite_iff x).mp hx)
  rw [display, hexact]

theorem shows_display (hx : x.isFinite = true) :
    Shows (display x) (exactValue x) (displayedValue x) := by
  have hrange := inPositionalRange_iff (isNegative x) (magnitudeBits x)
  have hsign := sign_signFactor_mul_shownValue (isNegative x) (unitsOfBits (magnitudeBits x))
  rw [display_of_isFinite hx, exactValue_eq hx, displayedValue]
  unfold shownValue at *
  by_cases hs : displayMost < unitsOfBits (magnitudeBits x) ∨
      (unitsOfBits (magnitudeBits x) < displayLeast ∧ unitsOfBits (magnitudeBits x) ≠ 0)
  · have hpos : 0 < unitsOfBits (magnitudeBits x) := by omega
    rw [if_pos hs] at hsign
    rw [if_pos hs, if_pos hs]
    exact ⟨written?_displayScientific _ hpos, hsign, fun hin => absurd hs (hrange.mp hin),
      fun _ => near_displayScientific _ hpos⟩
  · rw [if_neg hs] at hsign
    rw [if_neg hs, if_neg hs]
    exact ⟨written?_displayFixed _ _, hsign, fun _ => near_displayFixed _ _,
      fun hout => absurd (hrange.mpr hs) hout⟩

theorem displayedValue_mono (hx : x.isFinite = true) (hy : y.isFinite = true) (h : x ≤ y) :
    displayedValue x ≤ displayedValue y := by
  rw [le_iff_exactValue_le hx hy, exactValue_eq hx, exactValue_eq hy] at h
  exact signFactor_mul_shownValue_mono h

theorem eq_zero_of_displayedValue_eq_zero (h : displayedValue x = 0) : x = 0.0 ∨ x = -0.0 := by
  have hbits : magnitudeBits x = 0 := by
    by_contra hne
    have hpos := shownValue_pos (unitsOfBits_pos (Nat.pos_of_ne_zero hne))
    have habs := abs_signFactor_mul (isNegative x) hpos.le
    rw [← displayedValue, h, abs_zero] at habs
    exact hpos.ne habs
  rw [← doubleOfBits_self x, hbits]
  cases isNegative x with
  | false => exact .inl rfl
  | true => exact .inr rfl

/-- Every finite double is shown next to its exact value, as zero only when it is zero, and as
no more than any double that is not smaller. -/
theorem display_shows (hx : x.isFinite = true) :
    ∃ v, Shows (display x) (exactValue x) v ∧ (v = 0 → x = 0.0 ∨ x = -0.0) ∧
      ∀ y : Float, y.isFinite = true → x ≤ y → ∃ w, written? (display y) = some w ∧ v ≤ w :=
  ⟨displayedValue x, shows_display hx, eq_zero_of_displayedValue_eq_zero, fun y hy h =>
    ⟨displayedValue y, (shows_display hy).reads, displayedValue_mono hx hy h⟩⟩

theorem display_shows_ten_millionth : (0.0000001 : Float).isFinite = true ∧
    ∃ v, Shows (display 0.0000001) (exactValue 0.0000001) v ∧
      (v = 0 → (0.0000001 : Float) = 0.0 ∨ (0.0000001 : Float) = -0.0) ∧
      ∀ y : Float, y.isFinite = true → 0.0000001 ≤ y →
        ∃ w, written? (display y) = some w ∧ v ≤ w :=
  ⟨by decide +kernel, display_shows (by decide +kernel)⟩

/-- Half a unit of the last place below a power of ten, the digits carry. -/
example : display 99999995000.0 = "1.000000e11".toList := by decide +kernel

end Calculator.Decimal
