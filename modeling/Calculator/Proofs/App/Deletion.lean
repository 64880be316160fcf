import Calculator.Proofs.App.Bounds
import Calculator.Proofs.App.Changes

/-!
# What a deletion does to the selection

The selection is a position in the history, and a deletion keeps the position as long as an entry
is left there. So the selected calculation stays selected if it stands before the deleted one,
and if it is the newest: then it moves one position forward, and so does the end of the history,
to which the selection is held. Any other gives its place to the one behind it.
-/

namespace Calculator

/-! ## Entries behind an erased one -/

namespace History

variable {h : History} {i j d id : Nat}

theorem lt_size_of_getElem?_ids (hd : h.ids[d]? = some id) : d < h.size := by
  obtain ⟨hlt, -⟩ := List.getElem?_eq_some_iff.mp hd
  rwa [ids, List.length_map] at hlt

theorem entries_erase (hn : h.Numbered) (hd : h.ids[d]? = some id) :
    (h.erase id).entries = h.entries.eraseIdx d := by
  rw [ids, List.getElem?_map] at hd
  obtain ⟨entry, hentry, rfl⟩ := Option.map_eq_some_iff.mp hd
  obtain ⟨hlt, hget⟩ := List.getElem?_eq_some_iff.mp hentry
  have hsplit : h.entries = h.entries.take d ++ entry :: h.entries.drop (d + 1) := by
    rw [← hget, ← List.drop_eq_getElem_cons hlt, List.take_append_drop]
  rw [erase_of_entries hn hsplit, List.eraseIdx_eq_take_drop_succ]

theorem getElem?_ids_inj (hn : h.Numbered) (hlt : i < h.size) :
    h.ids[i]? = h.ids[j]? ↔ i = j := by
  have hlength : i < h.ids.length := by rwa [ids, List.length_map]
  exact List.getElem?_inj hlength hn.nodup

end History

namespace App

variable {clock : Clock} {a : App} {line : Text} {id d : Nat}

/-! ## The selected entry -/

/-- The entry at the selected position. -/
def selection? (a : App) : Option Entry := a.history.entries[a.selected]?

def selectedId? (a : App) : Option Nat := a.history.ids[a.selected]?

theorem selectedId?_eq (a : App) : a.selectedId? = a.selection?.map (·.id) :=
  List.getElem?_map

/-- A deletion keeps the selected position, up to the last one left. -/
theorem enter_of_delete (hline : Command.ofLine (Text.trim line) = .delete id) (a : App) :
    (a.enter clock line).history = a.history.erase id ∧
      (a.enter clock line).selected = min a.selected ((a.history.erase id).size - 1) := by
  have henter : a.enter clock line =
      obey clock { a with input := line, status := none } (.delete id) :=
    submit_of_command (a := { a with input := line }) hline nofun
  rw [henter]
  exact ⟨rfl, rfl⟩

/-- The entries left, and the one of them that is selected, by its old position. -/
theorem enter_of_delete_at (hr : a.Reachable)
    (hline : Command.ofLine (Text.trim line) = .delete id)
    (hd : a.history.ids[d]? = some id) :
    let place := min a.selected (a.history.size - 2)
    (a.enter clock line).history.entries = a.history.entries.eraseIdx d ∧
      (a.enter clock line).selection? =
        if place < d then a.history.entries[place]? else a.history.entries[place + 1]? := by
  intro place
  obtain ⟨hhistory, hselected⟩ := enter_of_delete hline a
  have hentries : (a.enter clock line).history.entries = a.history.entries.eraseIdx d :=
    hhistory ▸ History.entries_erase hr.numbered hd
  have hsize : (a.history.erase id).size = a.history.size - 1 := by
    rw [← hhistory, History.size, hentries]
    exact List.length_eraseIdx_of_lt (History.lt_size_of_getElem?_ids hd)
  refine ⟨hentries, ?_⟩
  rw [selection?, hentries, hselected, hsize]
  exact List.getElem?_eraseIdx

/-- The position stays before the deleted entry, or follows the end of the history. -/
theorem selection?_enter_of_stays (hr : a.Reachable)
    (hline : Command.ofLine (Text.trim line) = .delete id) (hd : a.history.ids[d]? = some id)
    (hne : d ≠ a.selected) (h : a.selected < d ∨ a.selected + 1 = a.history.size) :
    (a.enter clock line).selection? = a.selection? := by
  have hdlt := History.lt_size_of_getElem?_ids hd
  rw [(enter_of_delete_at hr hline hd).2]
  rcases h with hbefore | hnewest
  · rw [Nat.min_eq_left (by omega), if_pos hbefore]
    rfl
  · have hplace : min a.selected (a.history.size - 2) = a.selected - 1 := by omega
    rw [hplace, if_neg (by omega), Nat.sub_add_cancel (by omega)]
    rfl

theorem selection?_enter_of_moves (hr : a.Reachable)
    (hline : Command.ofLine (Text.trim line) = .delete id) (hd : a.history.ids[d]? = some id)
    (h : ¬(a.selected < d ∨ a.selected + 1 = a.history.size)) :
    (a.enter clock line).selection? = a.history.entries[a.selected + 1]? := by
  have hdlt := History.lt_size_of_getElem?_ids hd
  have hselected := hr.bounded.selected_le
  obtain ⟨hge, hlt⟩ := not_or.mp h
  rw [(enter_of_delete_at hr hline hd).2, Nat.min_eq_left (by omega), if_neg hge]

/-- After a deletion of another entry the selected entry is the same one exactly if it stands
before the deleted one or is the newest; otherwise the one behind it is selected. After a deletion
of the selected entry another one is selected, unless it was the only one. -/
theorem selection_after_deletion (hr : a.Reachable)
    (hline : Command.ofLine (Text.trim line) = .delete id) (hd : a.history.ids[d]? = some id) :
    let b := a.enter clock line
    let stays := a.selected < d ∨ a.selected + 1 = a.history.size
    b.history.entries = a.history.entries.eraseIdx d ∧
    (d ≠ a.selected →
      (b.selectedId? = a.selectedId? ↔ stays) ∧
      (stays → b.selection? = a.selection?) ∧
      (¬stays → b.selection? = a.history.entries[a.selected + 1]?)) ∧
    (d = a.selected → 2 ≤ a.history.size → ∃ entry, b.selection? = some entry) := by
  intro b stays
  obtain ⟨hentries, hentry⟩ := enter_of_delete_at hr hline hd
  have hdlt : d < a.history.size := History.lt_size_of_getElem?_ids hd
  refine ⟨hentries, fun hne => ?_, fun heq hsize => ?_⟩
  · have hkept : stays → b.selection? = a.selection? := selection?_enter_of_stays hr hline hd hne
    have hmoved : ¬stays → b.selection? = a.history.entries[a.selected + 1]? :=
      selection?_enter_of_moves hr hline hd
    refine ⟨⟨fun hsame => ?_, fun h => ?_⟩, hkept, hmoved⟩
    · by_contra hnot
      have hnext : a.selectedId? = a.history.ids[a.selected + 1]? := by
        rw [← hsame, selectedId?_eq, hmoved hnot]
        exact List.getElem?_map.symm
      have hslt : a.selected < a.history.size := by
        have := hr.bounded.selected_le
        omega
      exact absurd ((History.getElem?_ids_inj hr.numbered hslt).mp hnext) (by omega)
    · rw [selectedId?_eq, selectedId?_eq, hkept h]
  · -- The position that is left is that of an entry before or behind the deleted one.
    rw [hentry, ← heq]
    split
    · exact ⟨_, List.getElem?_eq_getElem (Nat.lt_trans ‹_› hdlt)⟩
    · exact ⟨_, List.getElem?_eq_getElem (by show _ < a.history.size; omega)⟩

/-- Of three calculations the second one is selected and the third one is deleted. -/
theorem selection_after_deletion_of_newest :
    let clock : Clock := fun id => 10 * id
    let a := afterKeys clock [.char '1', .enter, .char '2', .enter, .char '3', .enter, .up]
    a.Reachable ∧ Command.ofLine (Text.trim " del #3".toList) = .delete 3 ∧
      a.history.ids[2]? = some 3 ∧ a.selectedId? = some 2 ∧
      (a.enter clock " del #3".toList).history.ids = [1, 2] ∧
      (a.enter clock " del #3".toList).selection? = a.selection? := by
  intro clock a
  have hreach : a.Reachable := reachable_afterKeys clock _
  have hline : Command.ofLine (Text.trim " del #3".toList) = .delete 3 := by decide +kernel
  have hd : a.history.ids[2]? = some 3 := by decide +kernel
  have hselected : a.selected = 1 := by decide +kernel
  obtain ⟨-, hother, -⟩ := selection_after_deletion hreach hline hd
  obtain ⟨-, hkept, -⟩ := hother (by rw [hselected]; decide)
  refine ⟨hreach, hline, hd, by decide +kernel, by decide +kernel, hkept (.inl ?_)⟩
  rw [hselected]
  decide

/-- Of three calculations the second one is selected. When the first is deleted, the third
one takes its place. -/
theorem selection_moved_by_deletion :
    let clock : Clock := fun id => 10 * id
    let a := afterKeys clock ([.char '1', .enter, .char '2', .enter, .char '3', .enter, .up,
      .backspace] ++ "delete 1".toList.map .char)
    let b := a.press clock { key := .enter }
    a.Reachable ∧ 2 ≤ a.history.size ∧ Command.ofLine (Text.trim a.input) = .delete 1 ∧
      1 ∈ a.history.ids ∧ a.selectedId? = some 2 ∧
      b.history.ids = [2, 3] ∧ b.selectedId? = some 3 ∧ b.selectedId? ≠ a.selectedId? := by
  intro clock a b
  have hbefore : a.selectedId? = some 2 := by decide +kernel
  have hafter : b.selectedId? = some 3 := by decide +kernel
  have hids : a.history.ids = [1, 2, 3] := by decide +kernel
  refine ⟨reachable_afterKeys clock _, by decide +kernel, by decide +kernel, ?_, hbefore,
    by decide +kernel, hafter, ?_⟩
  · rw [hids]
    decide
  · rw [hbefore, hafter]
    decide

end App

end Calculator
