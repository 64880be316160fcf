import Calculator.Proofs.Decimal.Pattern

/-!
# Exact values of doubles

A finite double is a sign, a mantissa and a power of two, and its exact value is the rational
that those denote. It is the units of the pattern under the sign, and doubles are ordered as
their exact values.
-/

namespace Calculator.Decimal

open Float.Model (Format UnpackedFloat)
open Float.Model.UnpackedFloat

/-- What an unpacked finite double stands for; the others have no value, and get zero. -/
def unpackedValue : UnpackedFloat → ℚ
  | .finite s m e _ => s.apply m * 2 ^ e
  | _ => 0

def exactValue (x : Float) : ℚ := unpackedValue x.toModel.unpack

def signFactor (negative : Bool) : ℤ := if negative then -1 else 1

/-- A number of units, as a rational. -/
def size (units : Nat) : ℚ := units / unitsPerOne

/-! ## Fields of a pattern -/

section
variable (b : BitVec Format.binary64.numBits)

theorem toNat_unpackExponent : (unpackExponent b).toNat = b.toNat / binade % 2 ^ 11 := by
  rw [unpackExponent_def, BitVec.extractLsb'_toNat, Nat.shiftRight_eq_div_pow]
  rfl

theorem toNat_unpackMantissa : (unpackMantissa b).toNat = b.toNat % binade := by
  rw [unpackMantissa_def, BitVec.extractLsb'_toNat]
  rfl

theorem toNat_mod_signBit : b.toNat % signBit =
    (unpackExponent b).toNat * binade + (unpackMantissa b).toNat := by
  rw [toNat_unpackExponent, toNat_unpackMantissa, signBit_eq, binade_eq]
  omega

theorem unpackSign_eq_zero_iff : unpackSign b = 0#1 ↔ b.toNat < signBit := by
  have hb := b.isLt
  rw [← BitVec.toNat_inj, unpackSign_def, BitVec.extractLsb'_toNat, Nat.shiftRight_eq_div_pow,
    signBit_eq]
  change b.toNat < 2 ^ 64 at hb
  show b.toNat / 2 ^ 63 % 2 ^ 1 = 0 ↔ _
  omega

theorem toNat_normal (m : BitVec 52) : (1#1 ++ m).toNat = binade + m.toNat := by
  rw [BitVec.toNat_append]
  exact (Nat.shiftLeft_add_eq_or_of_lt m.isLt 1).symm

end

/-! ## Unpacking -/

def signOf (negative : Bool) : Sign := if negative then .negative else .positive

theorem ofBitVec_unpackSign (b : BitVec Format.binary64.numBits) :
    Sign.ofBitVec (unpackSign b) = signOf (signBit ≤ b.toNat) := by
  by_cases h : b.toNat < signBit
  · rw [(unpackSign_eq_zero_iff b).mpr h, decide_eq_false (Nat.not_le.mpr h)]
    rfl
  · rw [Sign.ofBitVec, if_neg (mt (unpackSign_eq_zero_iff b).mp h),
      decide_eq_true (Nat.not_lt.mp h)]
    rfl

/-- What a sign and a finite pattern unpack to: zero, a mantissa alone, or a mantissa behind the
digit that an exponent stands for. -/
inductive Unpacked (negative : Bool) : Nat → UnpackedFloat → Prop
  | zero : Unpacked negative 0 (.zero (signOf negative))
  | subnormal {m : Nat} (h : m < binade) (pos : 0 < m) :
    Unpacked negative m (.finite (signOf negative) m (-1074) pos)
  | normal (e : Nat) {m : Nat} (h : m < binade) (pos : 0 < binade + m) :
    Unpacked negative ((e + 1) * binade + m)
      (.finite (signOf negative) (binade + m) ((e + 1 : Nat) - 1075) pos)

theorem unpacked_unpack (b : BitVec Format.binary64.numBits)
    (h : b.toNat % signBit < infinityBits) :
    Unpacked (signBit ≤ b.toNat) (b.toNat % signBit) (unpack Format.binary64 b) := by
  have hlt : (unpackMantissa b).toNat < binade := (unpackMantissa b).isLt
  have hfinite : unpackExponent b ≠ -1#_ := by
    rw [ne_eq, exponent_eq_ones_iff]
    omega
  rw [toNat_mod_signBit]
  unfold Float.Model.UnpackedFloat.unpack
  simp only [hfinite, ↓reduceIte, ofBitVec_unpackSign]
  split
  · rename_i he
    rw [he, BitVec.toNat_zero, Nat.zero_mul, Nat.zero_add]
    split
    · rename_i hm
      rw [hm]
      exact .zero
    · exact .subnormal hlt _
  · rename_i he
    obtain ⟨e, he1⟩ : ∃ e, (unpackExponent b).toNat = e + 1 :=
      Nat.exists_eq_add_one.mpr (Nat.pos_of_ne_zero fun h0 => he (BitVec.eq_of_toNat_eq h0))
    rw [he1]
    simp only [toNat_normal]
    exact .normal e hlt _

/-- A finite double is its sign and its magnitude, unpacked. -/
theorem unpacked {x : Float} (hx : x.isFinite = true) :
    Unpacked (isNegative x) (magnitudeBits x) x.toModel.unpack :=
  unpacked_unpack x.toBits.toBitVec ((isFinite_iff x).mp hx)

/-! ## Units of a pattern -/

theorem cast_pow2 (n : Nat) : ((pow2 n : Nat) : ℚ) = 2 ^ n := Nat.cast_pow 2 n

theorem size_nonneg (units : Nat) : 0 ≤ size units :=
  div_nonneg (Nat.cast_nonneg _) (Nat.cast_nonneg _)

theorem size_zero : size 0 = 0 := by
  rw [size, Nat.cast_zero, zero_div]

theorem unitsPerOne_pos : 0 < unitsPerOne := pow2_pos 1074

theorem cast_unitsPerOne_pos : (0 : ℚ) < unitsPerOne := Nat.cast_pos.mpr unitsPerOne_pos

theorem size_le_size {u v : Nat} : size u ≤ size v ↔ u ≤ v := by
  rw [size, size, div_le_div_iff_of_pos_right cast_unitsPerOne_pos, Nat.cast_le]

theorem size_pos {units : Nat} (h : 0 < units) : 0 < size units :=
  div_pos (Nat.cast_pos.mpr h) cast_unitsPerOne_pos

theorem size_eq (units : Nat) : size units = units * 2 ^ (-1074 : ℤ) := by
  rw [size, unitsPerOne, cast_pow2, zpow_neg, div_eq_mul_inv, ← zpow_natCast, Nat.cast_ofNat]

theorem size_of_subnormal {bits : Nat} (h : bits < binade) :
    size (unitsOfBits bits) = bits * 2 ^ (-1074 : ℤ) := by
  have hscale : bits / binade - 1 = 0 := by
    rw [Nat.div_eq_of_lt h]
  rw [size_eq, unitsOfBits]
  simp only [hscale, Nat.zero_mul, Nat.sub_zero]
  rw [show pow2 0 = 1 from rfl, Nat.mul_one]

theorem size_of_normal {e m : Nat} (h : m < binade) :
    size (unitsOfBits ((e + 1) * binade + m)) =
      (binade + m : Nat) * 2 ^ (((e + 1 : Nat) : ℤ) - 1075) := by
  have he : ((e + 1 : Nat) : ℤ) - 1075 = e + -1074 := by omega
  have hscale : ((e + 1) * binade + m) / binade - 1 = e := by
    rw [binade_eq] at *
    omega
  have hm : (e + 1) * binade + m - e * binade = binade + m := by
    rw [Nat.add_one_mul]
    omega
  rw [size_eq, unitsOfBits]
  simp only [hscale, hm]
  rw [Nat.cast_mul, cast_pow2, mul_assoc, he, zpow_add₀ two_ne_zero, zpow_natCast]

theorem unitsOfBits_pos {bits : Nat} (h : 0 < bits) : 0 < unitsOfBits bits := by
  rw [unitsOfBits]
  refine Nat.mul_pos (Nat.sub_pos_of_lt ?_) (pow2_pos _)
  rw [binade_eq]
  omega

theorem unitsOfBits_mono {a b : Nat} (h : a ≤ b) : unitsOfBits a ≤ unitsOfBits b := by
  have hdiv : a / binade - 1 ≤ b / binade - 1 :=
    Nat.sub_le_sub_right (Nat.div_le_div_right h) 1
  rw [unitsOfBits, unitsOfBits]
  rcases Nat.lt_or_eq_of_le hdiv with hlt | heq
  · have hlow : a - (a / binade - 1) * binade ≤ 2 * binade := by
      rw [binade_eq]
      omega
    have hhigh : binade ≤ b - (b / binade - 1) * binade := by
      rw [binade_eq] at *
      omega
    generalize a / binade - 1 = s at *
    generalize b / binade - 1 = t at *
    calc (a - s * binade) * pow2 s
      _ ≤ binade * 2 * pow2 s := Nat.mul_le_mul_right _ (by omega)
      _ = binade * pow2 (s + 1) := by rw [Nat.mul_assoc, Nat.mul_comm 2]; rfl
      _ ≤ (b - t * binade) * pow2 t := Nat.mul_le_mul hhigh (Nat.pow_le_pow_right two_pos hlt)
  · rw [heq]
    exact Nat.mul_le_mul_right _ (Nat.sub_le_sub_right h _)

/-! ## Values -/

theorem apply_signOf (negative : Bool) (m : Nat) :
    (((signOf negative).apply m : ℤ) : ℚ) = signFactor negative * m := by
  cases negative with
  | false => exact (one_mul _).symm
  | true => simp [signOf, Sign.apply, signFactor]

theorem Unpacked.value_eq {negative : Bool} {bits : Nat} {f : UnpackedFloat}
    (h : Unpacked negative bits f) :
    unpackedValue f = signFactor negative * size (unitsOfBits bits) := by
  cases h with
  | zero =>
    rw [unitsOfBits, Nat.zero_sub, Nat.zero_mul, size_zero, mul_zero]
    rfl
  | subnormal h pos => rw [unpackedValue, apply_signOf, size_of_subnormal h, mul_assoc]
  | normal e h pos => rw [unpackedValue, apply_signOf, size_of_normal h, mul_assoc]

theorem exactValue_eq {x : Float} (hx : x.isFinite = true) :
    exactValue x = signFactor (isNegative x) * size (unitsOfBits (magnitudeBits x)) :=
  (unpacked hx).value_eq

/-! ## Order -/

/-- A mantissa as long as its exponent lets it be. -/
structure Normalized (m : Nat) (e : ℤ) : Prop where
  least : -1074 ≤ e
  short : m < 2 * binade
  long : -1074 < e → binade ≤ m

section
variable {m n : Nat} {e f : ℤ}

theorem mul_zpow_lt (hm : Normalized m e) (hn : Normalized n f) (h : e < f) :
    (m : ℚ) * 2 ^ e < n * 2 ^ f := by
  have hshort := hm.short
  have hlong := hn.long (hm.least.trans_lt h)
  calc (m : ℚ) * 2 ^ e
    _ < (2 * binade : Nat) * 2 ^ e := by gcongr
    _ = binade * 2 ^ (e + 1) := by
      rw [zpow_add_one₀ two_ne_zero, Nat.cast_mul, Nat.cast_ofNat, mul_comm 2, mul_assoc,
        mul_comm 2]
    _ ≤ n * 2 ^ f := by
      gcongr
      · norm_num
      · exact h

/-- Normalized numbers are compared by their exponents first. -/
theorem compare_mul_zpow (hm : Normalized m e) (hn : Normalized n f) :
    (compare e f).then (compare m n) = compare ((m : ℚ) * 2 ^ e) (n * 2 ^ f) := by
  rcases lt_trichotomy e f with h | rfl | h
  · rw [compare_lt_iff_lt.mpr h, compare_lt_iff_lt.mpr (mul_zpow_lt hm hn h)]
    rfl
  · rw [compare_eq_iff_eq.mpr rfl]
    show compare m n = _
    rcases lt_trichotomy m n with h | rfl | h
    · rw [compare_lt_iff_lt.mpr h, compare_lt_iff_lt.mpr (by gcongr)]
    · rw [compare_eq_iff_eq.mpr rfl, compare_eq_iff_eq.mpr rfl]
    · rw [compare_gt_iff_gt.mpr h, compare_gt_iff_gt.mpr (by gcongr)]
  · rw [compare_gt_iff_gt.mpr h, compare_gt_iff_gt.mpr (mul_zpow_lt hn hm h)]
    rfl

end

theorem swap_compare (q r : ℚ) : (compare q r).swap = compare (-q) (-r) := by
  rcases lt_trichotomy q r with h | rfl | h
  · rw [compare_lt_iff_lt.mpr h, compare_gt_iff_gt.mpr (neg_lt_neg h)]
    rfl
  · rw [compare_eq_iff_eq.mpr rfl, compare_eq_iff_eq.mpr rfl]
    rfl
  · rw [compare_gt_iff_gt.mpr h, compare_lt_iff_lt.mpr (neg_lt_neg h)]
    rfl

/-- Zero, or a normalized number, under a sign. -/
inductive Canonical : UnpackedFloat → Prop
  | zero (s : Sign) : Canonical (.zero s)
  | finite (s : Sign) {m : Nat} {e : ℤ} (h : Normalized m e) (pos : 0 < m) :
    Canonical (.finite s m e pos)

theorem Unpacked.canonical {negative : Bool} {bits : Nat} {f : UnpackedFloat}
    (h : Unpacked negative bits f) : Canonical f := by
  cases h with
  | zero => exact .zero _
  | subnormal h pos => exact .finite _ ⟨le_rfl, by omega, fun hlt => absurd hlt (lt_irrefl _)⟩ pos
  | normal e h pos => exact .finite _ ⟨by omega, by omega, fun _ => Nat.le_add_right _ _⟩ pos

section
variable {m : Nat} {e : ℤ} (pos : 0 < m)

theorem unpackedValue_negative : unpackedValue (.finite .negative m e pos) = -(m * 2 ^ e) := by
  rw [unpackedValue, Sign.apply, Int.cast_neg, neg_mul]
  rfl

theorem unpackedValue_finite_pos : 0 < unpackedValue (.finite .positive m e pos) :=
  mul_pos (Nat.cast_pos.mpr pos) (zpow_pos two_pos e)

theorem unpackedValue_finite_neg : unpackedValue (.finite .negative m e pos) < 0 := by
  rw [unpackedValue_negative]
  exact neg_neg_of_pos (unpackedValue_finite_pos pos)

end

theorem compare_eq {a b : UnpackedFloat} (ha : Canonical a) (hb : Canonical b) :
    a.compare b = some (compare (unpackedValue a) (unpackedValue b)) := by
  cases ha with
  | zero =>
    cases hb with
    | zero => exact congrArg some (compare_eq_iff_eq.mpr rfl).symm
    | finite t hn npos =>
      cases t with
      | positive => exact congrArg some (compare_lt_iff_lt.mpr (unpackedValue_finite_pos npos)).symm
      | negative => exact congrArg some (compare_gt_iff_gt.mpr (unpackedValue_finite_neg npos)).symm
  | finite s hm mpos =>
    cases hb with
    | zero =>
      cases s with
      | positive => exact congrArg some (compare_gt_iff_gt.mpr (unpackedValue_finite_pos mpos)).symm
      | negative => exact congrArg some (compare_lt_iff_lt.mpr (unpackedValue_finite_neg mpos)).symm
    | finite t hn npos =>
      cases s with
      | positive =>
        cases t with
        | positive => exact congrArg some (compare_mul_zpow hm hn)
        | negative =>
          exact congrArg some (compare_gt_iff_gt.mpr
            ((unpackedValue_finite_neg npos).trans (unpackedValue_finite_pos mpos))).symm
      | negative =>
        cases t with
        | positive =>
          exact congrArg some (compare_lt_iff_lt.mpr
            ((unpackedValue_finite_neg mpos).trans (unpackedValue_finite_pos npos))).symm
        | negative =>
          rw [unpackedValue_negative, unpackedValue_negative, ← swap_compare,
            ← compare_mul_zpow hm hn]
          rfl

/-- Finite doubles are ordered as their values. -/
theorem le_iff_exactValue_le {x y : Float} (hx : x.isFinite = true) (hy : y.isFinite = true) :
    x ≤ y ↔ exactValue x ≤ exactValue y := by
  show decide (x.toModel ≤ y.toModel) = true ↔ _
  rw [decide_eq_true_iff]
  show Option.any _ _ = true ↔ _
  rw [compare_eq (unpacked hx).canonical (unpacked hy).canonical, Option.any_some,
    ← compare_le_iff_le, exactValue, exactValue]
  cases compare (unpackedValue x.toModel.unpack) (unpackedValue y.toModel.unpack) <;> simp

end Calculator.Decimal
