import Mathlib.Order.Bounds.Basic
import Calculator.Proofs.App.Checked

/-!
# Moves by words

A word starts at a character that is not blank and has a blank or nothing before it
(`WordStart`). A move to the right ends at the first start behind the cursor, a move to the left
at the last one before it; where there is none, they end at the end and at the start of the
input. So from the start of a word one move undoes the other. Both are read off what the scans
leave behind: a scan passes only characters of its class and stops where the class ends.
-/

namespace Calculator

namespace Text

/-- A word starts at this position. -/
def WordStart (cs : Text) (i : Nat) : Prop :=
  cs[i]?.any (!isBlank ·) = true ∧ (i = 0 ∨ cs[i - 1]?.any isBlank = true)

instance (cs : Text) (i : Nat) : Decidable (WordStart cs i) :=
  inferInstanceAs (Decidable (_ ∧ _))

variable {cs : Text} {i : Nat}

theorem WordStart.lt_length (h : WordStart cs i) : i < cs.length := by
  by_contra hge
  have hnone : cs[i]? = none := List.getElem?_eq_none (Nat.le_of_not_lt hge)
  rw [WordStart, hnone] at h
  cases h.1

theorem any_not_isBlank (h : i < cs.length) :
    cs[i]?.any (!isBlank ·) = !cs[i]?.any isBlank := by
  rw [List.getElem?_eq_getElem h]
  rfl

theorem not_wordStart_of_blank (h : cs[i]?.any isBlank = true) : ¬ WordStart cs i := by
  intro hstart
  have hink := hstart.1
  rw [any_not_isBlank hstart.lt_length, h] at hink
  cases hink

theorem not_wordStart_of_ink (hpos : 0 < i) (h : cs[i - 1]?.any (!isBlank ·) = true) :
    ¬ WordStart cs i := by
  intro hstart
  have hlt := hstart.lt_length
  rcases hstart.2 with rfl | hblank
  · exact Nat.lt_irrefl 0 hpos
  · rw [any_not_isBlank (by omega), hblank] at h
    cases h

end Text

namespace App

open Text (isBlank WordStart)

variable {p : Char → Bool} {cs : Text} {i j : Nat}

/-! ## What a scan passes -/

theorem of_forthWhile? (h : forthWhile? p cs i = some j) :
    i ≤ j ∧ (∀ k, i ≤ k → k < j → cs[k]?.any p = true) ∧ cs[j]?.any p = false := by
  fun_induction forthWhile? p cs i with
  | case1 i hi hnone => cases h
  | case2 i hi c hc hp ih =>
    obtain ⟨hle, hpassed, hstop⟩ := ih h
    refine ⟨by omega, fun k hik hkj => ?_, hstop⟩
    rcases Nat.eq_or_lt_of_le hik with rfl | hlt
    · rw [hc]
      exact hp
    · exact hpassed k hlt hkj
  | case3 i hi c hc hp =>
    cases h
    refine ⟨Nat.le_refl _, fun k hik hki => absurd hki (Nat.not_lt.mpr hik), ?_⟩
    rw [hc]
    exact Bool.eq_false_iff.mpr hp
  | case4 i hi =>
    cases h
    refine ⟨Nat.le_refl _, fun k hik hki => absurd hki (Nat.not_lt.mpr hik), ?_⟩
    rw [List.getElem?_eq_none (Nat.le_of_not_lt hi)]
    rfl

theorem of_backWhile? (h : backWhile? p cs i = some j) :
    j ≤ i ∧ (∀ k, j ≤ k → k < i → cs[k]?.any p = true) ∧
      (j = 0 ∨ cs[j - 1]?.any p = false) := by
  induction i with
  | zero =>
    cases h
    exact ⟨Nat.le_refl 0, fun k _ hk => absurd hk (Nat.not_lt_zero k), .inl rfl⟩
  | succ i ih =>
    rw [backWhile?] at h
    split at h
    · cases h
    · rename_i c hc
      split at h
      · rename_i hp
        obtain ⟨hle, hpassed, hstop⟩ := ih h
        refine ⟨by omega, fun k hjk hki => ?_, hstop⟩
        rcases Nat.eq_or_lt_of_le (Nat.le_of_lt_succ hki) with rfl | hlt
        · rw [hc]
          exact hp
        · exact hpassed k hjk hlt
      · rename_i hp
        cases h
        refine ⟨Nat.le_refl _, fun k hik hki => absurd hki (Nat.not_lt.mpr hik), .inr ?_⟩
        rw [Nat.add_sub_cancel, hc]
        exact Bool.eq_false_iff.mpr hp

/-! ## Where a move ends -/

/-- A move to the right passes the rest of the word and then blanks, where no word starts. -/
theorem wordRight_cases (h : i ≤ cs.length) :
    IsLeast {k | WordStart cs k ∧ i < k} (wordRight cs i) ∨
      (∀ k, WordStart cs k → k ≤ i) ∧ wordRight cs i = cs.length := by
  obtain ⟨hscan, hle⟩ := wordRight?_eq h
  obtain ⟨j, hword, hblanks⟩ := Option.bind_eq_some_iff.mp hscan
  obtain ⟨hij, hink, hinkStop⟩ := of_forthWhile? hword
  obtain ⟨hjr, hblank, hblankStop⟩ := of_forthWhile? hblanks
  generalize wordRight cs i = r at hle hjr hblank hblankStop ⊢
  have hnone (k : Nat) (hk : WordStart cs k) (hik : i < k) : r ≤ k := by
    by_contra hkr
    rcases Nat.lt_or_ge k j with hkj | hjk
    · exact Text.not_wordStart_of_ink (by omega) (hink (k - 1) (by omega) (by omega)) hk
    · exact Text.not_wordStart_of_blank (hblank k hjk (by omega)) hk
  rcases Nat.eq_or_lt_of_le hle with rfl | hlt
  · refine .inr ⟨fun k hk => ?_, rfl⟩
    by_contra hik
    exact absurd hk.lt_length (Nat.not_lt.mpr (hnone k hk (Nat.lt_of_not_le hik)))
  · have hstart : cs[r]?.any (!isBlank ·) = true := by
      rw [Text.any_not_isBlank hlt, hblankStop]
      rfl
    -- There are blanks, for the word before them stops at one.
    have hne : j ≠ r := by
      rintro rfl
      cases hinkStop.symm.trans hstart
    have hfollows : cs[r - 1]?.any isBlank = true := hblank (r - 1) (by omega) (by omega)
    exact .inl ⟨⟨⟨hstart, .inr hfollows⟩, by omega⟩, fun k hk => hnone k hk.1 hk.2⟩

/-- A move to the left passes blanks and then a word up to its first character. -/
theorem wordLeft_cases (h : i ≤ cs.length) :
    IsGreatest {k | WordStart cs k ∧ k < i} (wordLeft cs i) ∨
      (∀ k, WordStart cs k → i ≤ k) ∧ wordLeft cs i = 0 := by
  obtain ⟨j, hblanks, hword⟩ := Option.bind_eq_some_iff.mp (wordLeft?_eq h).1
  obtain ⟨hji, hblank, hblankStop⟩ := of_backWhile? hblanks
  obtain ⟨hlj, hink, hinkStop⟩ := of_backWhile? hword
  generalize wordLeft cs i = l at hlj hink hinkStop ⊢
  have hnone (k : Nat) (hk : WordStart cs k) (hki : k < i) : k ≤ l := by
    by_contra hlk
    rcases Nat.lt_or_ge k j with hkj | hjk
    · exact Text.not_wordStart_of_ink (by omega) (hink (k - 1) (by omega) (by omega)) hk
    · exact Text.not_wordStart_of_blank (hblank k hjk hki) hk
  rcases Nat.eq_or_lt_of_le hlj with rfl | hlt
  · -- No character of a word is passed, so what stops the blanks is the start of the input.
    have hzero : l = 0 := by
      by_contra hne
      have hstop := hblankStop.resolve_left hne
      have hink := hinkStop.resolve_left hne
      rw [Text.any_not_isBlank (by omega), hstop] at hink
      cases hink
    refine .inr ⟨fun k hk => ?_, hzero⟩
    by_contra hki
    exact Text.not_wordStart_of_blank (hblank k (by omega) (by omega)) hk
  · have hstart : cs[l]?.any (!isBlank ·) = true := hink l (Nat.le_refl l) hlt
    have hfollows : l = 0 ∨ cs[l - 1]?.any isBlank = true := by
      refine hinkStop.imp_right fun hstop => ?_
      rw [Text.any_not_isBlank (by omega)] at hstop
      simpa using hstop
    exact .inl ⟨⟨⟨hstart, hfollows⟩, by omega⟩, fun k hk => hnone k hk.1 hk.2⟩

/-! ## There and back -/

theorem wordLeft_wordRight (h : WordStart cs i) : wordLeft cs (wordRight cs i) = i := by
  have hi := h.lt_length
  have hle := (wordRight?_eq (Nat.le_of_lt hi)).2
  have hlt : i < wordRight cs i := by
    rcases wordRight_cases (Nat.le_of_lt hi) with hleast | ⟨-, hend⟩
    · exact hleast.1.2
    · omega
  rcases wordLeft_cases hle with ⟨⟨hstart, hbefore⟩, hgreatest⟩ | ⟨hnone, -⟩
  · refine Nat.le_antisymm ?_ (hgreatest ⟨h, hlt⟩)
    rcases wordRight_cases (Nat.le_of_lt hi) with hleast | ⟨hlast, -⟩
    · by_contra hgt
      exact absurd hbefore (Nat.not_lt.mpr (hleast.2 ⟨hstart, Nat.lt_of_not_le hgt⟩))
    · exact hlast _ hstart
  · exact absurd hlt (Nat.not_lt.mpr (hnone i h))

theorem wordRight_wordLeft (h : WordStart cs i) (hbefore : ∃ k < i, WordStart cs k) :
    wordRight cs (wordLeft cs i) = i := by
  obtain ⟨k, hki, hk⟩ := hbefore
  have hi := Nat.le_of_lt h.lt_length
  rcases wordLeft_cases hi with ⟨⟨hstart, hlt⟩, hgreatest⟩ | ⟨hnone, -⟩
  · rcases wordRight_cases (Nat.le_of_lt hstart.lt_length) with hleast | ⟨hlast, -⟩
    · refine Nat.le_antisymm (hleast.2 ⟨h, hlt⟩) ?_
      by_contra hgt
      have hagain := hgreatest ⟨hleast.1.1, Nat.lt_of_not_le hgt⟩
      exact absurd hleast.1.2 (Nat.not_lt.mpr hagain)
    · exact absurd hlt (Nat.not_lt.mpr (hlast i h))
  · exact absurd hki (Nat.not_lt.mpr (hnone k hk))

variable {a : App}

/-- Ctrl+Right and any other move by a word to the right ends at the first start of a word
behind the cursor, and at the end of the input if there is none; a move to the left ends at the
last start before the cursor, and at the start of the input if there is none. Nothing else
changes. From the start of a word, a move to the right and one to the left change nothing, and
neither do a move to the left and one to the right, unless the word is the first one. -/
theorem word_moves (h : a.cursor ≤ a.input.length) :
    (∀ forth : Int, 0 ≤ forth → ∃ r, a.moveByWord forth = { a with cursor := r } ∧
      (IsLeast {i | WordStart a.input i ∧ a.cursor < i} r ∨
        (∀ i, WordStart a.input i → i ≤ a.cursor) ∧ r = a.input.length)) ∧
    (∀ back : Int, back < 0 → ∃ l, a.moveByWord back = { a with cursor := l } ∧
      (IsGreatest {i | WordStart a.input i ∧ i < a.cursor} l ∨
        (∀ i, WordStart a.input i → a.cursor ≤ i) ∧ l = 0)) ∧
    (WordStart a.input a.cursor → ∀ forth back : Int, 0 ≤ forth → back < 0 →
      (a.moveByWord forth).moveByWord back = a ∧
      ((∃ i < a.cursor, WordStart a.input i) → (a.moveByWord back).moveByWord forth = a)) ∧
    (a.helpOpen = false → ∀ clock : Clock,
      a.press clock { key := .right, ctrl := true } = a.moveByWord 1 ∧
      a.press clock { key := .left, ctrl := true } = a.moveByWord (-1)) := by
  have hforth (b : App) {forth : Int} (hf : 0 ≤ forth) :
      b.moveByWord forth = { b with cursor := wordRight b.input b.cursor } := by
    rw [moveByWord, if_neg (Int.not_lt.mpr hf)]
  have hback (b : App) {back : Int} (hb : back < 0) :
      b.moveByWord back = { b with cursor := wordLeft b.input b.cursor } := by
    rw [moveByWord, if_pos hb]
  refine ⟨fun forth hf => ⟨_, hforth a hf, wordRight_cases h⟩,
    fun back hb => ⟨_, hback a hb, wordLeft_cases h⟩, fun hstart forth back hf hb => ⟨?_, ?_⟩, ?_⟩
  · rw [hforth a hf, hback _ hb]
    exact congrArg (fun cursor => { a with cursor }) (wordLeft_wordRight hstart)
  · intro hbefore
    rw [hback a hb, hforth _ hf]
    exact congrArg (fun cursor => { a with cursor }) (wordRight_wordLeft hstart hbefore)
  · intro hhelp clock
    simp only [press, hhelp]
    exact ⟨rfl, rfl⟩

/-- From the second word of this input, over a blank outside ASCII. -/
theorem word_moves_over_no_break_space :
    let a : App := { input := "1 \u00A0 √9\t+".toList, cursor := 4 }
    a.cursor ≤ a.input.length ∧ WordStart a.input a.cursor ∧
      (∃ i < a.cursor, WordStart a.input i) ∧
      IsLeast {i | WordStart a.input i ∧ a.cursor < i} (a.moveByWord 1).cursor ∧
      (a.moveByWord 1).cursor = 7 ∧ (a.moveByWord (-1)).cursor = 0 ∧
      (a.moveByWord 1).moveByWord (-1) = a ∧ (a.moveByWord (-1)).moveByWord 1 = a := by
  intro a
  have hcursor : a.cursor ≤ a.input.length := by decide
  have hstart : WordStart a.input a.cursor := by decide
  have hbefore : ∃ i < a.cursor, WordStart a.input i := ⟨0, by decide, by decide⟩
  obtain ⟨hright, -, hreturn, -⟩ := word_moves hcursor
  obtain ⟨hthere, hback⟩ := hreturn hstart 1 (-1) (by decide) (by decide)
  obtain ⟨r, hr, hend⟩ := hright 1 (by decide)
  have hr7 : (a.moveByWord 1).cursor = 7 := by decide
  refine ⟨hcursor, hstart, hbefore, ?_, hr7, by decide, hthere, hback hbefore⟩
  rcases hend with hleast | ⟨hlast, -⟩
  · rw [hr]
    exact hleast
  · exact absurd (hlast 7 (by decide)) (by decide)

end App

end Calculator
