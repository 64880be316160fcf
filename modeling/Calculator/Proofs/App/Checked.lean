import Calculator.Proofs.Editing.Bytes

/-!
# Steps that look before they leap

The presses of a key once more, with every index, byte offset and difference they use: a
step has no answer where an index is out of range, an offset lies inside a character or a
difference is below zero. With the cursor inside the input each of them has an answer,
which is the step of the calculator.
-/

namespace Calculator

namespace App

/-! ## Words -/

def backWhile? (p : Char → Bool) (cs : Text) : Nat → Option Nat
  | 0 => some 0
  | i + 1 =>
    match cs[i]? with
    | none => none
    | some c => if p c then backWhile? p cs i else some (i + 1)

def forthWhile? (p : Char → Bool) (cs : Text) (i : Nat) : Option Nat :=
  if i < cs.length then
    match cs[i]? with
    | none => none
    | some c => if p c then forthWhile? p cs (i + 1) else some i
  else some i
termination_by cs.length - i

def wordLeft? (cs : Text) (i : Nat) : Option Nat :=
  (backWhile? Text.isBlank cs i).bind (backWhile? (!Text.isBlank ·) cs)

def wordRight? (cs : Text) (i : Nat) : Option Nat :=
  (forthWhile? (!Text.isBlank ·) cs i).bind (forthWhile? Text.isBlank cs)

def moveByWord? (a : App) (direction : Int) : Option App :=
  (if direction < 0 then wordLeft? a.input a.cursor else wordRight? a.input a.cursor).map
    fun cursor => { a with cursor }

variable {p : Char → Bool} {cs : Text} {i : Nat}

theorem backWhile?_eq (h : i ≤ cs.length) :
    ∃ j ≤ i, backWhile? p cs i = some j ∧
      (cs.take i).reverse.dropWhile p = (cs.take j).reverse := by
  induction i with
  | zero => exact ⟨0, Nat.le_refl 0, rfl, rfl⟩
  | succ i ih =>
    have hi : i < cs.length := h
    rw [backWhile?, List.getElem?_eq_getElem hi, List.take_succ_eq_append_getElem hi,
      List.reverse_append, List.reverse_singleton, List.singleton_append, List.dropWhile_cons]
    dsimp only
    split
    · obtain ⟨j, hj, hback, hdrop⟩ := ih (Nat.le_of_lt hi)
      exact ⟨j, Nat.le_succ_of_le hj, hback, hdrop⟩
    · refine ⟨i + 1, Nat.le_refl _, rfl, ?_⟩
      rw [List.take_succ_eq_append_getElem hi, List.reverse_append, List.reverse_singleton,
        List.singleton_append]

theorem forthWhile?_eq (h : i ≤ cs.length) :
    ∃ j, i ≤ j ∧ j ≤ cs.length ∧ forthWhile? p cs i = some j ∧
      (cs.drop i).dropWhile p = cs.drop j := by
  induction hn : cs.length - i generalizing i with
  | zero =>
    have hi : ¬ i < cs.length := by omega
    rw [forthWhile?, if_neg hi, List.drop_eq_nil_of_le (Nat.le_of_not_lt hi)]
    exact ⟨i, Nat.le_refl i, h, rfl, (List.drop_eq_nil_of_le (Nat.le_of_not_lt hi)).symm⟩
  | succ n ih =>
    have hi : i < cs.length := by omega
    rw [forthWhile?, if_pos hi, List.getElem?_eq_getElem hi, List.drop_eq_getElem_cons hi,
      List.dropWhile_cons]
    dsimp only
    split
    · obtain ⟨j, hij, hj, hforth, hdrop⟩ := ih hi (by omega)
      exact ⟨j, Nat.le_of_succ_le hij, hj, hforth, hdrop⟩
    · exact ⟨i, Nat.le_refl i, h, rfl, (List.drop_eq_getElem_cons hi).symm⟩

theorem wordLeft?_eq (h : i ≤ cs.length) :
    wordLeft? cs i = some (wordLeft cs i) ∧ wordLeft cs i ≤ i := by
  obtain ⟨j, hj, hback, hdrop⟩ := backWhile?_eq (p := Text.isBlank) h
  obtain ⟨k, hk, hback', hdrop'⟩ :=
    backWhile?_eq (p := (!Text.isBlank ·)) (Nat.le_trans hj h)
  have hword : wordLeft cs i = k := by
    rw [wordLeft, hdrop, hdrop', List.length_reverse, List.length_take,
      Nat.min_eq_left (by omega)]
  rw [wordLeft?, hback, hword]
  exact ⟨hback', Nat.le_trans hk hj⟩

theorem wordRight?_eq (h : i ≤ cs.length) :
    wordRight? cs i = some (wordRight cs i) ∧ wordRight cs i ≤ cs.length := by
  obtain ⟨j, hij, hj, hforth, hdrop⟩ := forthWhile?_eq (p := (!Text.isBlank ·)) h
  obtain ⟨k, hjk, hk, hforth', hdrop'⟩ := forthWhile?_eq (p := Text.isBlank) hj
  have hword : wordRight cs i = k := by
    rw [wordRight, hdrop, hdrop', List.length_drop, List.length_drop]
    omega
  rw [wordRight?, hforth, hword]
  exact ⟨hforth', hk⟩

theorem moveByWord?_eq {a : App} (h : a.cursor ≤ a.input.length) (direction : Int) :
    a.moveByWord? direction = some (a.moveByWord direction) := by
  unfold moveByWord? moveByWord
  split
  · rw [(wordLeft?_eq h).1]
    rfl
  · rw [(wordRight?_eq h).1]
    rfl

/-! ## The scroll of the input -/

/-- The difference, where it is not below zero. -/
def minus? (m n : Nat) : Option Nat := if n ≤ m then some (m - n) else none

/-- Scrolls the input so that the cursor is visible in `w` columns. The sum is formed only where
the scroll is at most the cursor, and the width comes from sixteen bits, so it cannot overflow. -/
def fitInput? (a : App) (w : Nat) : Option App :=
  (if a.cursor < a.inputScroll then some a.cursor
    else if a.inputScroll + w ≤ a.cursor then minus? (a.cursor + 1) (max w 1)
    else some a.inputScroll).map
    fun scroll => { a with inputScroll := min scroll (a.input.length - w) }

theorem fitInput?_eq (a : App) (w : Nat) : a.fitInput? w = some (a.fitInput w) := by
  unfold fitInput? fitInput
  split
  · rfl
  · split
    · rw [minus?, if_pos (by omega)]
      rfl
    · rfl

/-! ## Presses -/

def press? (clock : Clock) (a : App) (p : Press) : Option App :=
  if a.helpOpen then some (a.pressInHelp p.key)
  else
    match p.ctrl, p.key with
    | true, .char c => some (a.pressCtrlChar c)
    | true, .left => a.moveByWord? (-1)
    | true, .right => a.moveByWord? 1
    | _, key => a.editBytes? clock key

theorem press?_eq {a : App} (h : a.cursor ≤ a.input.length) (clock : Clock) (p : Press) :
    a.press? clock p = some (a.press clock p) := by
  obtain ⟨key, ctrl⟩ := p
  unfold press? press
  split
  · rfl
  · cases ctrl with
    | false => exact a.editBytes?_eq clock key
    | true =>
      cases key with
      | char c => rfl
      | left => exact moveByWord?_eq h (-1)
      | right => exact moveByWord?_eq h 1
      | _ => exact a.editBytes?_eq clock _

end App

end Calculator
