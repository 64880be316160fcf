/-!
# Powers and rounded quotients

`roundEven num den` is the natural number nearest to `num / den`; a half goes to
the even neighbour. It stays within half a unit of the quotient, a whole quotient is
its own rounding, and a larger quotient is not rounded to less.
-/

namespace Calculator.Decimal

def pow2 (n : Nat) : Nat := Nat.pow 2 n

def pow10 (n : Nat) : Nat := Nat.pow 10 n

theorem pow2_pos (n : Nat) : 0 < pow2 n := Nat.pow_pos (by decide)

theorem pow10_pos (n : Nat) : 0 < pow10 n := Nat.pow_pos (by decide)

/-- The integer nearest to `num / den`, halves to even. -/
def roundEven (num den : Nat) : Nat :=
  if 2 * (num % den) < den ∨ (2 * (num % den) = den ∧ num / den % 2 = 0) then
    num / den
  else
    num / den + 1

theorem two_mul_roundEven_le (num : Nat) {den : Nat} (h : 0 < den) :
    2 * (roundEven num den * den) ≤ 2 * num + den := by
  have hd := Nat.div_add_mod num den
  have hm := Nat.mod_lt num h
  rw [Nat.mul_comm] at hd
  unfold roundEven
  split
  · omega
  · rw [Nat.add_one_mul (num / den)]; omega

theorem le_two_mul_roundEven (num : Nat) {den : Nat} (h : 0 < den) :
    2 * num ≤ 2 * (roundEven num den * den) + den := by
  have hd := Nat.div_add_mod num den
  have hm := Nat.mod_lt num h
  rw [Nat.mul_comm] at hd
  unfold roundEven
  split
  · omega
  · rw [Nat.add_one_mul (num / den)]; omega

theorem roundEven_mul_left (n : Nat) {den : Nat} (h : 0 < den) :
    roundEven (n * den) den = n := by
  simp [roundEven, Nat.mul_mod_left, Nat.mul_div_cancel n h, h]

theorem div_le_roundEven (num den : Nat) : num / den ≤ roundEven num den := by
  unfold roundEven
  split <;> omega

theorem roundEven_le_div_add_one (num den : Nat) : roundEven num den ≤ num / den + 1 := by
  unfold roundEven
  split <;> omega

theorem roundEven_mono (den : Nat) {num num' : Nat} (h : num ≤ num') :
    roundEven num den ≤ roundEven num' den := by
  rcases Nat.lt_or_eq_of_le (Nat.div_le_div_right (c := den) h) with hq | hq
  · exact Nat.le_trans (roundEven_le_div_add_one num den)
      (Nat.le_trans hq (div_le_roundEven num' den))
  · have hd := Nat.div_add_mod num den
    have hd' := Nat.div_add_mod num' den
    rw [hq] at hd
    unfold roundEven
    rw [hq]
    split <;> split <;> omega

theorem le_roundEven {n num den : Nat} (hd : 0 < den) (h : n * den ≤ num) :
    n ≤ roundEven num den := by
  have hm := roundEven_mono den h
  rwa [roundEven_mul_left n hd] at hm

theorem roundEven_le {n num den : Nat} (hd : 0 < den) (h : num ≤ n * den) :
    roundEven num den ≤ n := by
  have hm := roundEven_mono den h
  rwa [roundEven_mul_left n hd] at hm

end Calculator.Decimal
