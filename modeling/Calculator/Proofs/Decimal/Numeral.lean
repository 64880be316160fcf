import Calculator.Proofs.Runs
import Calculator.Token.Lexeme

/-!
# Reading numerals

A run of digits and points is a number exactly when it has a digit and at most one point.
The digits in front of the point and those behind it make one natural number, over the
power of ten that counts the latter.
-/

namespace Calculator.Decimal

open Token (IsNumeral)

theorem isNumeralChar_iff {c : Char} : isNumeralChar c = true ↔ c.isDigit = true ∨ c = '.' := by
  simp [isNumeralChar]

theorem isDigit_ne_point {c : Char} (h : c.isDigit = true) : c ≠ '.' := by
  rintro rfl
  cases h

theorem not_isNumeralChar_of_isAlpha {c : Char} (h : c.isAlpha = true) :
    isNumeralChar c = false := by
  rw [Bool.eq_false_iff]
  intro hn
  rcases isNumeralChar_iff.mp hn with hd | rfl
  · unfold Char.isAlpha Char.isUpper Char.isLower at h
    unfold Char.isDigit at hd
    simp only [Bool.or_eq_true, Bool.and_eq_true, decide_eq_true_eq, UInt32.le_iff_toNat_le,
      ge_iff_le] at h hd
    have h1 : 'A'.val.toNat = 65 := rfl
    have h2 : 'a'.val.toNat = 97 := rfl
    have h3 : '9'.val.toNat = 57 := rfl
    omega
  · cases h

/-! ## Numerals -/

section
variable {whole places : Text}

theorem isNumeral_whole (hw : ∀ c ∈ whole, c.isDigit = true) (hne : whole ≠ []) :
    IsNumeral whole := by
  refine ⟨?_, ?_, ?_⟩
  · exact List.all_eq_true.mpr fun c hc => isNumeralChar_iff.mpr (.inl (hw c hc))
  · obtain ⟨c, hc⟩ := List.exists_mem_of_ne_nil whole hne
    exact List.any_eq_true.mpr ⟨c, hc, hw c hc⟩
  · rw [List.count_eq_zero.mpr fun hm => isDigit_ne_point (hw _ hm) rfl]
    exact Nat.zero_le 1

theorem isNumeral_point (hw : ∀ c ∈ whole, c.isDigit = true) (hp : ∀ c ∈ places, c.isDigit = true)
    (hne : whole ++ places ≠ []) : IsNumeral (whole ++ '.' :: places) := by
  have hd : ∀ c ∈ whole ++ places, c.isDigit = true := fun c hc =>
    (List.mem_append.mp hc).elim (hw c) (hp c)
  have hmem {c : Char} : c ∈ whole ++ '.' :: places ↔ c = '.' ∨ c ∈ whole ++ places := by
    simp [or_left_comm]
  refine ⟨?_, ?_, ?_⟩
  · refine List.all_eq_true.mpr fun c hc => isNumeralChar_iff.mpr ?_
    exact (hmem.mp hc).symm.imp_left (hd c)
  · obtain ⟨c, hc⟩ := List.exists_mem_of_ne_nil _ hne
    exact List.any_eq_true.mpr ⟨c, hmem.mpr (.inr hc), hd c hc⟩
  · have hone : (whole ++ '.' :: places).count '.' = 1 := by
      rw [List.count_append, List.count_cons_self,
        List.count_eq_zero.mpr fun hm => isDigit_ne_point (hw _ hm) rfl,
        List.count_eq_zero.mpr fun hm => isDigit_ne_point (hp _ hm) rfl]
    exact Nat.le_of_eq hone

theorem isNumeral_cases {run : Text} (h : IsNumeral run) :
    (∃ whole, run = whole ∧ (∀ c ∈ whole, c.isDigit = true) ∧ whole ≠ []) ∨
      ∃ whole places, run = whole ++ '.' :: places ∧ (∀ c ∈ whole, c.isDigit = true) ∧
        (∀ c ∈ places, c.isDigit = true) ∧ whole ++ places ≠ [] := by
  obtain ⟨hall, hany, hcount⟩ := h
  obtain ⟨whole, tail, rfl, hw, hstop⟩ := Runs.exists_run Char.isDigit run
  obtain ⟨d, hd, hdigit⟩ := List.any_eq_true.mp hany
  cases tail with
  | nil =>
    rw [List.append_nil] at hd ⊢
    exact .inl ⟨whole, rfl, hw, List.ne_nil_of_mem hd⟩
  | cons c places =>
    have hc : c = '.' := by
      have h := isNumeralChar_iff.mp (List.all_eq_true.mp hall c (by simp))
      exact h.resolve_left (by simp [hstop c rfl])
    subst hc
    have hnone : '.' ∉ places := by
      rw [List.count_append, List.count_cons_self] at hcount
      exact List.count_eq_zero.mp (by omega)
    refine .inr ⟨whole, places, rfl, hw, fun c hc => ?_, ?_⟩
    · have h := isNumeralChar_iff.mp (List.all_eq_true.mp hall c (by simp [hc]))
      exact h.resolve_right fun h => hnone (h ▸ hc)
    · have : d ∈ whole ++ places := by
        simp only [List.mem_append, List.mem_cons] at hd ⊢
        rcases hd with hd | rfl | hd
        · exact .inl hd
        · cases hdigit
        · exact .inr hd
      exact List.ne_nil_of_mem this

/-! ## The value of a numeral -/

theorem readFraction?_whole (hw : ∀ c ∈ whole, c.isDigit = true) (hne : whole ≠ []) :
    readFraction? whole = some (Nat.ofDigitChars 10 whole 0, pow10 0) := by
  have ht : whole.takeWhile Char.isDigit = whole := by
    simpa using Runs.takeWhile_append (s := []) hw nofun
  have hd : whole.dropWhile Char.isDigit = [] := by
    simpa using Runs.dropWhile_append (s := []) hw nofun
  simp [readFraction?, ht, hd, hne]

theorem readFraction?_point (hw : ∀ c ∈ whole, c.isDigit = true)
    (hp : ∀ c ∈ places, c.isDigit = true) (hne : whole ++ places ≠ []) :
    readFraction? (whole ++ '.' :: places) =
      some (Nat.ofDigitChars 10 (whole ++ places) 0, pow10 places.length) := by
  have hs : ∀ c ∈ ('.' :: places).head?, c.isDigit = false := by
    intro c hc
    cases hc
    rfl
  have ht : (whole ++ '.' :: places).takeWhile Char.isDigit = whole := Runs.takeWhile_append hw hs
  have hd : (whole ++ '.' :: places).dropWhile Char.isDigit = '.' :: places :=
    Runs.dropWhile_append hw hs
  have hall : places.all Char.isDigit = true := List.all_eq_true.mpr hp
  have hempty : (whole ++ places).isEmpty = false := by simpa using hne
  simp [readFraction?, ht, hd, hall, hempty]

end

theorem isNumeral_of_readFraction? {run : Text} {r : Nat × Nat} (h : readFraction? run = some r) :
    IsNumeral run := by
  have hrun := List.takeWhile_append_dropWhile (p := Char.isDigit) (l := run)
  have hw : ∀ c ∈ run.takeWhile Char.isDigit, c.isDigit = true := fun c => Runs.mem_takeWhile
  unfold readFraction? at h
  simp only [Option.ite_none_right_eq_some, Bool.and_eq_true, Bool.not_eq_true',
    List.isEmpty_eq_false_iff] at h
  obtain ⟨⟨⟨hhead, hp⟩, hne⟩, -⟩ := h
  generalize run.takeWhile Char.isDigit = whole at hrun hw hne
  generalize run.dropWhile Char.isDigit = tail at hrun hhead hp hne
  subst hrun
  cases tail with
  | nil => simpa using isNumeral_whole hw (by simpa using hne)
  | cons c places =>
    have hc : c = '.' := by simpa using hhead
    subst hc
    exact isNumeral_point hw (List.all_eq_true.mp hp) hne

theorem readDouble?_isSome_iff (negative : Bool) (run : Text) :
    (readDouble? negative run).isSome = true ↔ IsNumeral run := by
  rw [readDouble?, Option.isSome_map]
  constructor
  · intro h
    obtain ⟨r, hr⟩ := Option.isSome_iff_exists.mp h
    exact isNumeral_of_readFraction? hr
  · intro h
    rcases isNumeral_cases h with ⟨whole, rfl, hw, hne⟩ | ⟨whole, places, rfl, hw, hp, hne⟩
    · rw [readFraction?_whole hw hne]; rfl
    · rw [readFraction?_point hw hp hne]; rfl

end Calculator.Decimal
