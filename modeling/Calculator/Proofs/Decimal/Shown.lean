import Calculator.Decimal.Display
import Calculator.Proofs.Decimal.ExactValue

/-!
# Shown values

Both notations show the multiple of a power of ten nearest to the value: of `10 ^ -6`, or of
the place six behind the first digit. Rounding to such a multiple keeps the order, and it does
not pass a power of ten; so neither does a change of notation, which happens at one.
-/

namespace Calculator.Decimal

theorem cast_pow10 (n : Nat) : ((pow10 n : Nat) : ℚ) = 10 ^ n := Nat.cast_pow 10 n

theorem pow10_div (e : ℤ) : (10 : ℚ) ^ e.toNat / 10 ^ (-e).toNat = 10 ^ e := by
  rw [← zpow_natCast, ← zpow_natCast, ← zpow_sub₀ (by norm_num)]
  congr 1
  omega

/-! ## Rounding to a power of ten -/

theorem abs_roundEven_sub_le (num : Nat) {den : Nat} (h : 0 < den) :
    |(roundEven num den : ℚ) - num / den| ≤ 1 / 2 := by
  have hd : (0 : ℚ) < den := Nat.cast_pos.mpr h
  have hle : (2 * (roundEven num den * den) : ℚ) ≤ 2 * num + den := by
    exact_mod_cast two_mul_roundEven_le num h
  have hge : (2 * num : ℚ) ≤ 2 * (roundEven num den * den) + den := by
    exact_mod_cast le_two_mul_roundEven num h
  have hdiff : (roundEven num den : ℚ) - num / den = (roundEven num den * den - num) / den := by
    rw [sub_div, mul_div_cancel_right₀ _ hd.ne']
  rw [hdiff, abs_div, abs_of_pos hd, div_le_iff₀ hd, abs_le]
  constructor <;> linarith

/-- How many times `10 ^ e` goes into a value in units, to the nearest. -/
def timesAt (e : ℤ) (units : Nat) : Nat :=
  roundEven (units * pow10 (-e).toNat) (unitsPerOne * pow10 e.toNat)

/-- The multiple of `10 ^ e` nearest to a value in units. -/
def roundedAt (e : ℤ) (units : Nat) : ℚ := timesAt e units * 10 ^ e

section
variable (e : ℤ) (units : Nat)

theorem den_pos : 0 < unitsPerOne * pow10 e.toNat := Nat.mul_pos unitsPerOne_pos (pow10_pos _)

theorem quotient_mul : ((units * pow10 (-e).toNat : Nat) : ℚ) /
    ((unitsPerOne * pow10 e.toNat : Nat) : ℚ) * 10 ^ e = size units := by
  have h10 : (10 : ℚ) ^ (-e).toNat ≠ 0 := by positivity
  have h10' : (10 : ℚ) ^ e.toNat ≠ 0 := by positivity
  have hone := cast_unitsPerOne_pos.ne'
  rw [size, ← pow10_div, Nat.cast_mul, Nat.cast_mul, cast_pow10, cast_pow10]
  field_simp

theorem abs_roundedAt_sub_le : |roundedAt e units - size units| ≤ 1 / 2 * 10 ^ e := by
  have h10 : (0 : ℚ) < 10 ^ e := by positivity
  rw [roundedAt, ← quotient_mul e units, ← sub_mul, abs_mul, abs_of_pos h10]
  exact mul_le_mul_of_nonneg_right (abs_roundEven_sub_le _ (den_pos e)) h10.le

theorem roundedAt_nonneg : 0 ≤ roundedAt e units :=
  mul_nonneg (Nat.cast_nonneg _) (by positivity)

variable {units}

theorem roundedAt_mono {v : Nat} (h : units ≤ v) : roundedAt e units ≤ roundedAt e v := by
  have h10 : (0 : ℚ) ≤ 10 ^ e := by positivity
  refine mul_le_mul_of_nonneg_right (Nat.cast_le.mpr ?_) h10
  exact roundEven_mono _ (Nat.mul_le_mul_right _ h)

theorem le_timesAt {n : Nat} (h : (n : ℚ) * 10 ^ e ≤ size units) : n ≤ timesAt e units := by
  have h10 : (0 : ℚ) < 10 ^ e := by positivity
  have hden : (0 : ℚ) < (unitsPerOne * pow10 e.toNat : Nat) := Nat.cast_pos.mpr (den_pos e)
  rw [← quotient_mul e units, mul_le_mul_iff_left₀ h10, le_div_iff₀ hden] at h
  exact le_roundEven (den_pos e) (by exact_mod_cast h)

theorem timesAt_le {n : Nat} (h : size units ≤ n * 10 ^ e) : timesAt e units ≤ n := by
  have h10 : (0 : ℚ) < 10 ^ e := by positivity
  have hden : (0 : ℚ) < (unitsPerOne * pow10 e.toNat : Nat) := Nat.cast_pos.mpr (den_pos e)
  rw [← quotient_mul e units, mul_le_mul_iff_left₀ h10, div_le_iff₀ hden] at h
  exact roundEven_le (den_pos e) (by exact_mod_cast h)

end

/-! ## The leading digit -/

theorem unitsPerOne_le_pow10 : unitsPerOne ≤ pow10 324 := by
  decide +kernel

theorem exists_length_ofNat {n : Nat} (h : 0 < n) :
    ∃ len, (Text.ofNat n).length = len + 1 ∧ pow10 len ≤ n ∧ n < pow10 (len + 1) := by
  obtain ⟨len, hlen⟩ : ∃ len, (Text.ofNat n).length = len + 1 :=
    Nat.exists_eq_add_one.mpr (List.length_pos_iff.mpr Nat.toDigits_ne_nil)
  have hiff {k : Nat} (hk : 0 < k) : (Text.ofNat n).length ≤ k ↔ n < pow10 k :=
    Nat.length_toDigits_le_iff (by decide) hk
  refine ⟨len, hlen, ?_, (hiff (Nat.succ_pos len)).mp (Nat.le_of_eq hlen)⟩
  rcases Nat.eq_zero_or_pos len with rfl | hpos
  · exact h
  · rw [← Nat.not_lt, ← hiff hpos]
    omega

theorem leadingExponent_bounds {units : Nat} (h : 0 < units) :
    (10 : ℚ) ^ leadingExponent units ≤ size units ∧
      size units < 10 ^ (leadingExponent units + 1) := by
  have hpos : 0 < units * pow10 324 / unitsPerOne := by
    refine Nat.div_pos (Nat.le_trans unitsPerOne_le_pow10 ?_) unitsPerOne_pos
    exact Nat.le_mul_of_pos_left _ h
  obtain ⟨len, hlen, hlow, hhigh⟩ := exists_length_ofNat hpos
  rw [Nat.le_div_iff_mul_le unitsPerOne_pos] at hlow
  rw [Nat.div_lt_iff_lt_mul unitsPerOne_pos] at hhigh
  have hlow' : (10 : ℚ) ^ len * unitsPerOne ≤ units * 10 ^ 324 := by
    rw [← cast_pow10, ← cast_pow10]
    exact_mod_cast hlow
  have hhigh' : (units * 10 ^ 324 : ℚ) < 10 ^ (len + 1) * unitsPerOne := by
    rw [← cast_pow10, ← cast_pow10]
    exact_mod_cast hhigh
  have htop : leadingExponent units = (len : ℤ) - (324 : ℕ) := by
    rw [leadingExponent, hlen]
    omega
  have hnext : (len : ℤ) - (324 : ℕ) + 1 = (len + 1 : ℕ) - (324 : ℕ) := by
    omega
  have h324 : (0 : ℚ) < 10 ^ 324 := by positivity
  have hone := cast_unitsPerOne_pos
  rw [htop, hnext, zpow_natCast_sub_natCast₀ (by norm_num), zpow_natCast_sub_natCast₀ (by norm_num),
    size, div_le_div_iff₀ h324 hone, div_lt_div_iff₀ hone h324]
  exact ⟨hlow', hhigh'⟩

theorem le_leadingExponent {units : Nat} {e : ℤ} (h0 : 0 < units) (h : (10 : ℚ) ^ e ≤ size units) :
    e ≤ leadingExponent units := by
  have hlt := h.trans_lt (leadingExponent_bounds h0).2
  exact Int.lt_add_one_iff.mp ((zpow_lt_zpow_iff_right₀ (by norm_num)).mp hlt)

/-! ## The value that is shown -/

def fixedValue (units : Nat) : ℚ := roundedAt (-displayPlaces) units

def scientificValue (units : Nat) : ℚ := roundedAt (leadingExponent units - displayPlaces) units

section
variable {units : Nat} {e m : ℤ}

theorem zpow_eq_pow10_mul (h : e ≤ m) : (10 : ℚ) ^ m = (pow10 (m - e).toNat : Nat) * 10 ^ e := by
  rw [cast_pow10, ← zpow_natCast, ← zpow_add₀ (by norm_num)]
  congr 1
  omega

theorem zpow_le_roundedAt (hem : e ≤ m) (h : (10 : ℚ) ^ m ≤ size units) :
    (10 : ℚ) ^ m ≤ roundedAt e units := by
  rw [zpow_eq_pow10_mul hem] at h ⊢
  exact mul_le_mul_of_nonneg_right (Nat.cast_le.mpr (le_timesAt e h)) (by positivity)

theorem roundedAt_le_zpow (hem : e ≤ m) (h : size units ≤ (10 : ℚ) ^ m) :
    roundedAt e units ≤ (10 : ℚ) ^ m := by
  rw [zpow_eq_pow10_mul hem] at h ⊢
  exact mul_le_mul_of_nonneg_right (Nat.cast_le.mpr (timesAt_le e h)) (by positivity)

theorem roundedAt_zero (e : ℤ) : roundedAt e 0 = 0 := by
  have h : timesAt e 0 ≤ 0 := timesAt_le e (by rw [size_zero, Nat.cast_zero, zero_mul])
  rw [roundedAt, Nat.le_zero.mp h, Nat.cast_zero, zero_mul]

/-- Rounding to six more digits does not leave the powers of ten around. -/
theorem scientificValue_bounds (h : 0 < units) :
    (10 : ℚ) ^ leadingExponent units ≤ scientificValue units ∧
      scientificValue units ≤ 10 ^ (leadingExponent units + 1) := by
  obtain ⟨hlow, hhigh⟩ := leadingExponent_bounds h
  exact ⟨zpow_le_roundedAt (by omega) hlow, roundedAt_le_zpow (by omega) hhigh.le⟩

theorem scientificValue_mono {v : Nat} (h0 : 0 < units) (h : units ≤ v) :
    scientificValue units ≤ scientificValue v := by
  have hv := Nat.lt_of_lt_of_le h0 h
  have htop : leadingExponent units ≤ leadingExponent v :=
    le_leadingExponent hv ((leadingExponent_bounds h0).1.trans (size_le_size.mpr h))
  rcases htop.lt_or_eq with htop | htop
  · calc scientificValue units
      _ ≤ 10 ^ (leadingExponent units + 1) := (scientificValue_bounds h0).2
      _ ≤ 10 ^ leadingExponent v := zpow_le_zpow_right₀ (by norm_num) htop
      _ ≤ scientificValue v := (scientificValue_bounds hv).1
  · rw [scientificValue, scientificValue, htop]
    exact roundedAt_mono _ h

end

theorem leadingDigits_eq (units : Nat) : leadingDigits units =
    let k := timesAt (leadingExponent units - displayPlaces) units
    if k < pow10 (displayPlaces + 1) then (k, leadingExponent units)
    else (k / 10, leadingExponent units + 1) := rfl

/-- Seven digits, or the first number of eight. -/
theorem timesAt_bounds {units : Nat} (h : 0 < units) :
    pow10 displayPlaces ≤ timesAt (leadingExponent units - displayPlaces) units ∧
      timesAt (leadingExponent units - displayPlaces) units ≤ pow10 (displayPlaces + 1) := by
  have hbounds := leadingExponent_bounds h
  generalize leadingExponent units = top at *
  obtain ⟨hlow, hhigh⟩ := hbounds
  have hplaces : (top - (top - (displayPlaces : ℤ))).toNat = displayPlaces := by omega
  have hplaces' : (top + 1 - (top - (displayPlaces : ℤ))).toNat = displayPlaces + 1 := by omega
  rw [zpow_eq_pow10_mul (e := top - displayPlaces) (by omega), hplaces] at hlow
  rw [zpow_eq_pow10_mul (e := top - displayPlaces) (by omega), hplaces'] at hhigh
  exact ⟨le_timesAt _ hlow, timesAt_le _ hhigh.le⟩

/-- The digits and the exponent of the text: rounding may carry into one more digit, which
is then zero. -/
theorem leadingDigits_spec {units k : Nat} {e : ℤ} (h : 0 < units)
    (hd : leadingDigits units = (k, e)) :
    pow10 displayPlaces ≤ k ∧ k < pow10 (displayPlaces + 1) ∧ leadingExponent units ≤ e ∧
      (k : ℚ) * 10 ^ (e - displayPlaces) = scientificValue units := by
  obtain ⟨hlow, hhigh⟩ := timesAt_bounds h
  rw [leadingDigits_eq] at hd
  rw [scientificValue, roundedAt]
  generalize leadingExponent units = top at *
  generalize timesAt (top - displayPlaces) units = n at *
  dsimp only at hd
  split at hd
  · rename_i hlt
    cases hd
    exact ⟨hlow, hlt, le_rfl, rfl⟩
  · rename_i hge
    obtain rfl : n = pow10 (displayPlaces + 1) := by omega
    cases hd
    refine ⟨by decide, by decide, by omega, ?_⟩
    have hten : ((pow10 (displayPlaces + 1) / 10 : Nat) : ℚ) * 10 = pow10 (displayPlaces + 1) := by
      exact_mod_cast (rfl : pow10 (displayPlaces + 1) / 10 * 10 = pow10 (displayPlaces + 1))
    rw [add_sub_right_comm, zpow_add_one₀ (by norm_num), ← mul_assoc, mul_right_comm, hten]

/-! ## Both notations -/

def shownValue (units : Nat) : ℚ :=
  if displayMost < units ∨ (units < displayLeast ∧ units ≠ 0) then scientificValue units
  else fixedValue units

theorem size_displayMost : size displayMost = 10 ^ (10 : ℤ) := by
  rw [size, displayMost, Nat.cast_mul, mul_div_cancel_right₀ _ cast_unitsPerOne_pos.ne', cast_pow10]
  rfl

theorem displayLeast_pos : 0 < displayLeast := by
  decide +kernel

theorem leadingDigits_displayLeast : leadingDigits displayLeast = (pow10 displayPlaces, -5) := by
  decide +kernel

theorem scientificValue_displayLeast : scientificValue displayLeast = 10 ^ (-5 : ℤ) := by
  obtain ⟨-, -, -, h⟩ := leadingDigits_spec displayLeast_pos leadingDigits_displayLeast
  rw [← h, cast_pow10, ← zpow_natCast, ← zpow_add₀ (by norm_num)]
  rfl

theorem leadingExponent_displayLeast : leadingExponent displayLeast = -5 := by
  decide +kernel

theorem zpow_le_size_displayLeast : 10 ^ (-5 : ℤ) ≤ size displayLeast := by
  rw [← leadingExponent_displayLeast]
  exact (leadingExponent_bounds displayLeast_pos).1

theorem displayLeast_le_displayMost : displayLeast ≤ displayMost := by
  decide +kernel

section
variable {units : Nat}

/-- The positional texts lie between the others. -/
theorem fixedValue_le (h : units ≤ displayMost) : fixedValue units ≤ 10 ^ (10 : ℤ) :=
  roundedAt_le_zpow (by decide) (size_displayMost ▸ size_le_size.mpr h)

theorem le_scientificValue (h : displayMost < units) : 10 ^ (10 : ℤ) ≤ scientificValue units := by
  have hpos : 0 < units := Nat.zero_lt_of_lt h
  have hsize : (10 : ℚ) ^ (10 : ℤ) ≤ size units := size_displayMost ▸ size_le_size.mpr h.le
  calc (10 : ℚ) ^ (10 : ℤ)
    _ ≤ 10 ^ leadingExponent units :=
      zpow_le_zpow_right₀ (by norm_num) (le_leadingExponent hpos hsize)
    _ ≤ scientificValue units := (scientificValue_bounds hpos).1

theorem le_fixedValue (h : displayLeast ≤ units) : 10 ^ (-5 : ℤ) ≤ fixedValue units :=
  zpow_le_roundedAt (by decide) (zpow_le_size_displayLeast.trans (size_le_size.mpr h))

theorem scientificValue_le (h0 : 0 < units) (h : units < displayLeast) :
    scientificValue units ≤ 10 ^ (-5 : ℤ) :=
  scientificValue_displayLeast ▸ scientificValue_mono h0 h.le

end

theorem shownValue_nonneg (units : Nat) : 0 ≤ shownValue units := by
  unfold shownValue
  split
  · exact roundedAt_nonneg _ _
  · exact roundedAt_nonneg _ _

theorem shownValue_zero : shownValue 0 = 0 := by
  rw [shownValue, if_neg (by simp), fixedValue, roundedAt_zero]

theorem shownValue_pos {units : Nat} (h : 0 < units) : 0 < shownValue units := by
  unfold shownValue
  split
  · exact lt_of_lt_of_le (by positivity) (scientificValue_bounds h).1
  · rename_i hrange
    have hleast : displayLeast ≤ units := by omega
    exact lt_of_lt_of_le (by positivity) (le_fixedValue hleast)

/-- A larger value is not shown as less, also where the notation changes. -/
theorem shownValue_mono {u v : Nat} (h : u ≤ v) : shownValue u ≤ shownValue v := by
  rcases Nat.eq_zero_or_pos u with rfl | hu
  · exact shownValue_zero.le.trans (shownValue_nonneg v)
  have hleast := displayLeast_le_displayMost
  unfold shownValue
  split
  · rename_i hsu
    split
    · exact scientificValue_mono hu h
    · rename_i hfv
      have hu' : u < displayLeast := by omega
      exact (scientificValue_le hu hu').trans (le_fixedValue (by omega))
  · rename_i hfu
    split
    · rename_i hsv
      have hv' : displayMost < v := by omega
      exact (fixedValue_le (by omega)).trans (le_scientificValue hv')
    · exact roundedAt_mono _ h

end Calculator.Decimal
