import Mathlib
import Calculator.Decimal.Double

/-!
# Bit patterns of doubles

A double is its sign and the pattern of its magnitude; the pattern of a finite one is
below that of infinity. Building a double from a sign and such a pattern, or from that of
infinity, keeps both.
-/

namespace Calculator.Decimal

open Float.Model (Format UnpackedFloat)
open Float.Model.UnpackedFloat

theorem binade_eq : binade = 2 ^ 52 := rfl

theorem infinityBits_eq : infinityBits = 2047 * 2 ^ 52 := rfl

theorem signBit_eq : signBit = 2 ^ 63 := rfl

/-! ## Fields of a pattern -/

section
variable (b : BitVec Format.binary64.numBits)

theorem exponent_eq_ones_iff :
    unpackExponent b = -1#_ ↔ infinityBits ≤ b.toNat % signBit := by
  rw [← BitVec.toNat_inj, unpackExponent_def, BitVec.extractLsb'_toNat, Nat.shiftRight_eq_div_pow,
    infinityBits_eq, signBit_eq]
  show b.toNat / 2 ^ 52 % 2 ^ 11 = 2047 ↔ _
  omega

theorem mantissa_eq_zero_iff : unpackMantissa b = 0#_ ↔ b.toNat % binade = 0 := by
  rw [← BitVec.toNat_inj, unpackMantissa_def, BitVec.extractLsb'_toNat]
  rfl

theorem isNaNBits_eq_false (h : b.toNat % signBit ≤ infinityBits) : isNaNBits b = false := by
  rw [isNaNBits, decide_eq_false_iff_not]
  rintro ⟨he, hm⟩
  rw [exponent_eq_ones_iff] at he
  refine hm ((mantissa_eq_zero_iff b).mpr ?_)
  rw [infinityBits_eq, signBit_eq] at *
  rw [binade_eq]
  omega

end

theorem toBits_ofBits {b : UInt64} (h : b.toNat % signBit ≤ infinityBits) :
    (Float.ofBits b).toBits = b := by
  show UInt64.ofBitVec ((unpack Format.binary64 b.toBitVec).pack Format.binary64) = b
  rw [pack_unpack, isNaNBits_eq_false b.toBitVec h]
  rfl

/-! ## Signs and magnitudes -/

section
variable (negative : Bool) {bits : Nat}

theorem toBits_doubleOfBits (h : bits ≤ infinityBits) :
    (doubleOfBits negative bits).toBits.toNat = if negative then signBit + bits else bits := by
  have hlt : (if negative = true then signBit + bits else bits) < 2 ^ 64 := by
    rw [infinityBits_eq] at h
    rw [signBit_eq]
    split <;> omega
  have hmod : (if negative = true then signBit + bits else bits) % signBit ≤ infinityBits := by
    rw [infinityBits_eq] at *
    rw [signBit_eq]
    split <;> omega
  rw [doubleOfBits, toBits_ofBits] <;> rw [UInt64.toNat_ofNat', Nat.mod_eq_of_lt hlt]
  exact hmod

theorem isNegative_doubleOfBits (h : bits ≤ infinityBits) :
    isNegative (doubleOfBits negative bits) = negative := by
  rw [isNegative, toBits_doubleOfBits negative h]
  rw [infinityBits_eq] at h
  rw [signBit_eq]
  cases negative
  · exact decide_eq_false (by simp only [Bool.false_eq_true, ↓reduceIte]; omega)
  · exact decide_eq_true (by simp only [↓reduceIte]; omega)

theorem magnitudeBits_doubleOfBits (h : bits ≤ infinityBits) :
    magnitudeBits (doubleOfBits negative bits) = bits := by
  rw [magnitudeBits, toBits_doubleOfBits negative h]
  rw [infinityBits_eq] at h
  rw [signBit_eq]
  split <;> omega

end

theorem doubleOfBits_self (x : Float) : doubleOfBits (isNegative x) (magnitudeBits x) = x := by
  have hlt := x.toBits.toNat_lt
  have hnat : (if isNegative x = true then signBit + magnitudeBits x else magnitudeBits x) =
      x.toBits.toNat := by
    rw [isNegative, magnitudeBits, signBit_eq]
    by_cases h : 2 ^ 63 ≤ x.toBits.toNat
    · rw [decide_eq_true h, if_pos rfl]; omega
    · rw [decide_eq_false h, if_neg Bool.false_ne_true]; omega
  rw [doubleOfBits, hnat, UInt64.ofNat_toNat, Float.ofBits_toBits]

theorem isFinite_unpack_iff (b : BitVec Format.binary64.numBits) :
    (Float.Model.UnpackedFloat.unpack Format.binary64 b).isFinite = true ↔
      unpackExponent b ≠ -1#_ := by
  unfold Float.Model.UnpackedFloat.unpack
  by_cases h : unpackExponent b = -1#_
  · simp only [h, ↓reduceIte, ne_eq, not_true_eq_false, iff_false]
    split <;> exact Bool.false_ne_true
  · simp only [h, ↓reduceIte, ne_eq, not_false_eq_true, iff_true]
    split
    · split <;> rfl
    · rfl

theorem isFinite_iff (x : Float) : x.isFinite = true ↔ magnitudeBits x < infinityBits := by
  rw [magnitudeBits, ← Nat.not_le]
  exact (isFinite_unpack_iff x.toBits.toBitVec).trans (not_congr (exponent_eq_ones_iff _))

theorem isNaN_unpack_iff (b : BitVec Format.binary64.numBits) :
    (Float.Model.UnpackedFloat.unpack Format.binary64 b).isNaN = true ↔
      unpackExponent b = -1#_ ∧ unpackMantissa b ≠ 0#_ := by
  unfold Float.Model.UnpackedFloat.unpack
  by_cases h : unpackExponent b = -1#_
  · simp only [h, ↓reduceIte, true_and]
    split
    · rename_i hm
      exact iff_of_false Bool.false_ne_true fun hne => hne hm
    · rename_i hm
      exact iff_of_true rfl hm
  · simp only [h, ↓reduceIte, false_and, iff_false]
    split
    · split <;> exact Bool.false_ne_true
    · exact Bool.false_ne_true

/-- What is no number is above the pattern of infinity. -/
theorem isNaN_iff (x : Float) : x.isNaN = true ↔ infinityBits < magnitudeBits x := by
  have hbits := (isNaN_unpack_iff x.toBits.toBitVec).trans
    (and_congr (exponent_eq_ones_iff _) (not_congr (mantissa_eq_zero_iff _)))
  refine hbits.trans ?_
  show infinityBits ≤ magnitudeBits x ∧ ¬ x.toBits.toNat % binade = 0 ↔ _
  rw [magnitudeBits, infinityBits_eq, signBit_eq, binade_eq]
  omega

end Calculator.Decimal
