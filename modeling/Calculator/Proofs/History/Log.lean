import Calculator.History
import Mathlib.Data.List.Nodup

/-!
# The history as a log

Every history comes from a new one by a list of changes: calculations recorded, entries
removed, everything cleared. `kept` says which calculations such a list leaves, looking at
the changes alone: those that no later change drops. A history holds exactly these, in
the order they were made, and a look-up by id finds what is in it.
-/

namespace Calculator

namespace History

inductive Change where
  | record (expression : Text) (detailed : Bool) (nanos : Nat)
  | remove (id : Nat)
  | clear
  deriving DecidableEq, Repr

/-- Whether an entry of this id is gone after the change. -/
def Change.drops (id : Nat) : Change → Bool
  | .record .. => false
  | .remove id' => id' == id
  | .clear => true

def recorded : List Change → Nat
  | [] => 0
  | .record .. :: changes => recorded changes + 1
  | _ :: changes => recorded changes

/-- The calculations made after `n` others, numbered on, each with the changes behind it. -/
def recordings (n : Nat) : List Change → List (Entry × List Change)
  | [] => []
  | .record expression detailed nanos :: changes =>
    (Entry.calculate (n + 1) expression detailed nanos, changes) :: recordings (n + 1) changes
  | _ :: changes => recordings n changes

/-- Whether an entry is still there after a list of changes. -/
def survives (changes : List Change) (entry : Entry) : Bool :=
  !changes.any (·.drops entry.id)

/-- The calculations that are not dropped again, oldest first. -/
def kept (n : Nat) (changes : List Change) : List Entry :=
  ((recordings n changes).filter fun r => survives r.2 r.1).map (·.1)

def apply (h : History) : Change → History
  | .record expression detailed nanos => h.record expression detailed nanos
  | .remove id => (h.remove id).2
  | .clear => h.clear

def after (h : History) (changes : List Change) : History := changes.foldl apply h

/-! ## Ids -/

/-- The ids grow from entry to entry, and none is above the last one given out. -/
structure Numbered (h : History) : Prop where
  ascending : h.ids.Pairwise (· < ·)
  pos : ∀ id ∈ h.ids, 1 ≤ id
  le_last : ∀ id ∈ h.ids, id ≤ h.lastId

variable {h : History}

theorem numbered_new : Numbered {} where
  ascending := .nil
  pos := nofun
  le_last := nofun

@[simp] theorem ids_record (h : History) (e : Text) (d : Bool) (nanos : Nat) :
    (h.record e d nanos).ids = h.ids ++ [h.lastId + 1] := by
  simp [ids, record, next, Entry.calculate]

theorem ids_erase_sublist (h : History) (id : Nat) : (h.erase id).ids.Sublist h.ids :=
  List.eraseP_sublist.map _

theorem numbered_record (hn : h.Numbered) (e : Text) (d : Bool) (nanos : Nat) :
    (h.record e d nanos).Numbered where
  ascending := by
    rw [ids_record, List.pairwise_append]
    refine ⟨hn.ascending, List.pairwise_singleton _ _, fun id hid last hlast => ?_⟩
    rw [List.mem_singleton] at hlast
    have := hn.le_last id hid
    omega
  pos id hid := by
    rw [ids_record, List.mem_append, List.mem_singleton] at hid
    rcases hid with hid | rfl
    · exact hn.pos id hid
    · omega
  le_last id hid := by
    rw [ids_record, List.mem_append, List.mem_singleton] at hid
    show id ≤ h.lastId + 1
    rcases hid with hid | rfl
    · have := hn.le_last id hid
      omega
    · exact Nat.le_refl _

theorem numbered_erase (hn : h.Numbered) (id : Nat) : (h.erase id).Numbered where
  ascending := hn.ascending.sublist (ids_erase_sublist h id)
  pos i hi := hn.pos i ((ids_erase_sublist h id).subset hi)
  le_last i hi := hn.le_last i ((ids_erase_sublist h id).subset hi)

theorem numbered_clear (h : History) : h.clear.Numbered where
  ascending := .nil
  pos := nofun
  le_last := nofun

theorem numbered_apply (hn : h.Numbered) (change : Change) : (h.apply change).Numbered := by
  cases change with
  | record e d nanos => exact numbered_record hn e d nanos
  | remove id => rw [apply, remove_eq]; exact numbered_erase hn id
  | clear => exact numbered_clear h

theorem numbered_after (hn : h.Numbered) (changes : List Change) :
    (h.after changes).Numbered := by
  induction changes generalizing h with
  | nil => exact hn
  | cons change changes ih => exact ih (numbered_apply hn change)

theorem lastId_after (h : History) (changes : List Change) :
    (h.after changes).lastId = h.lastId + recorded changes := by
  induction changes generalizing h with
  | nil => rfl
  | cons change changes ih =>
    rw [after, List.foldl_cons]
    refine (ih (h.apply change)).trans ?_
    cases change with
    | record e d nanos => simp only [apply, record, recorded]; omega
    | remove id => rw [apply, remove_eq]; rfl
    | clear => rfl

/-! ## Look-ups -/

theorem Numbered.nodup (hn : h.Numbered) : h.ids.Nodup := hn.ascending.imp Nat.ne_of_lt

theorem get?_eq_some_iff (hn : h.Numbered) {id : Nat} {entry : Entry} :
    h.get? id = some entry ↔ entry ∈ h.entries ∧ entry.id = id := by
  constructor
  · intro hg
    exact ⟨List.mem_of_find?_eq_some hg, by simpa using List.find?_some hg⟩
  · rintro ⟨hm, rfl⟩
    cases hg : h.get? entry.id with
    | none => simpa using List.find?_eq_none.mp hg entry hm
    | some found =>
      have hid : found.id = entry.id := by simpa using List.find?_some hg
      have hf : found ∈ h.entries := List.mem_of_find?_eq_some hg
      rw [List.inj_on_of_nodup_map hn.nodup hf hm hid]

theorem get?_eq_none_iff {id : Nat} : h.get? id = none ↔ id ∉ h.ids := by
  simp [get?, ids]

theorem erase_of_not_mem {id : Nat} (hid : id ∉ h.ids) : h.erase id = h := by
  have hno : ∀ entry ∈ h.entries, ¬ (entry.id == id) = true := by simpa [ids] using hid
  rw [erase, List.eraseP_of_forall_not hno]

/-- Where no id comes twice, dropping the first entry of an id drops all of them. -/
theorem eraseP_eq_filter {entries : List Entry} (hn : (entries.map (·.id)).Nodup) (id : Nat) :
    entries.eraseP (·.id == id) = entries.filter (·.id != id) := by
  induction entries with
  | nil => rfl
  | cons entry entries ih =>
    rw [List.map_cons, List.nodup_cons] at hn
    rw [List.eraseP_cons, List.filter_cons]
    by_cases hid : entry.id = id
    · have hno : ∀ other ∈ entries, (other.id != id) = true := fun other ho =>
        bne_iff_ne.mpr fun ho' => hn.1 (hid ▸ ho' ▸ List.mem_map_of_mem ho)
      simp [hid, List.filter_eq_self.mpr hno]
    · simp [bne_iff_ne.mpr hid, beq_eq_false_iff_ne.mpr hid, ih hn.2]

theorem erase_of_entries (hn : h.Numbered) {front behind : List Entry} {entry : Entry}
    (he : h.entries = front ++ entry :: behind) :
    h.erase entry.id = { h with entries := front ++ behind } := by
  have hnd := hn.nodup
  rw [ids, he, List.map_append, List.map_cons, List.nodup_middle, List.nodup_cons] at hnd
  have hfront : ∀ other ∈ front, ¬ (other.id == entry.id) = true := fun other ho ho' =>
    hnd.1 (by rw [← beq_iff_eq.mp ho']; exact List.mem_append_left _ (List.mem_map_of_mem ho))
  rw [erase, he, List.eraseP_append_right _ hfront, List.eraseP_cons, beq_self_eq_true]
  rfl

/-! ## Runs -/

@[simp] theorem survives_record (e : Text) (d : Bool) (nanos : Nat) (changes : List Change) :
    survives (.record e d nanos :: changes) = survives changes := rfl

theorem survives_remove (id : Nat) (changes : List Change) (entry : Entry) :
    survives (.remove id :: changes) entry = (survives changes entry && entry.id != id) := by
  rw [survives, List.any_cons, Bool.not_or, Bool.and_comm, Change.drops, Bool.beq_comm]
  rfl

theorem survives_clear (changes : List Change) (entry : Entry) :
    survives (.clear :: changes) entry = false := rfl

theorem kept_record (n : Nat) (e : Text) (d : Bool) (nanos : Nat) (changes : List Change) :
    kept n (.record e d nanos :: changes) =
      [Entry.calculate (n + 1) e d nanos].filter (survives changes) ++ kept (n + 1) changes := by
  unfold kept
  rw [recordings, List.filter_cons, List.filter_cons]
  split <;> rfl

/-- A run leaves the entries that outlive it, and behind them the calculations it makes and
does not drop again. -/
theorem entries_after (hn : h.Numbered) (changes : List Change) :
    (h.after changes).entries =
      h.entries.filter (survives changes) ++ kept h.lastId changes := by
  induction changes generalizing h with
  | nil => exact (List.filter_eq_self.mpr fun _ _ => rfl).symm.trans (List.append_nil _).symm
  | cons change changes ih =>
    refine (ih (numbered_apply hn change)).trans ?_
    cases change with
    | record e d nanos =>
      rw [survives_record, kept_record, ← List.append_assoc, ← List.filter_append]
      rfl
    | remove id =>
      rw [apply, remove_eq]
      show (h.entries.eraseP (·.id == id)).filter _ ++ _ = _
      rw [eraseP_eq_filter hn.nodup, List.filter_filter]
      congr 1
      exact List.filter_congr fun entry _ => (survives_remove id changes entry).symm
    | clear =>
      have hnone : h.entries.filter (survives (.clear :: changes)) = [] :=
        List.filter_eq_nil_iff.mpr fun entry _ => by simp [survives_clear]
      rw [hnone]
      rfl

theorem calculate_holds (id : Nat) (e : Text) (d : Bool) (nanos : Nat) :
    let entry := Entry.calculate id e d nanos
    calculateTraced e { detailed := d } =
      (entry.outcome, ⟨entry.detailed, entry.steps, entry.postfixText⟩) := by
  have hd : (calculateTraced e { detailed := d }).2.detailed = d := calculateTraced_detailed e _
  unfold Entry.calculate
  generalize calculateTraced e { detailed := d } = result at hd ⊢
  obtain ⟨outcome, trace⟩ := result
  subst hd
  rfl

theorem exists_calculate_of_mem_kept {n : Nat} {changes : List Change} {entry : Entry}
    (he : entry ∈ kept n changes) : ∃ id e d nanos, entry = Entry.calculate id e d nanos := by
  induction changes generalizing n with
  | nil => cases he
  | cons change changes ih =>
    cases change with
    | record e d nanos =>
      rw [kept_record, List.mem_append, List.mem_filter, List.mem_singleton] at he
      rcases he with ⟨rfl, -⟩ | he
      · exact ⟨_, e, d, nanos, rfl⟩
      · exact ih he
    | remove id => exact ih he
    | clear => exact ih he

/-- What any changes of a new history leave. It holds the calculations that no later change
dropped, in the order they were made and with all that was found out about them; the next
one gets the id after the number of those made, so no id comes twice. Look-ups and
removals find an entry exactly where one of that id is left. -/
theorem after_changes (changes : List Change) :
    let h := after {} changes
    h.entries = kept 0 changes ∧
    h.lastId = recorded changes ∧ h.ids.Pairwise (· < ·) ∧
    (∀ id ∈ h.ids, 1 ≤ id ∧ id ≤ recorded changes) ∧
    (∀ entry ∈ h.entries, calculateTraced entry.expression { detailed := entry.detailed } =
      (entry.outcome, ⟨entry.detailed, entry.steps, entry.postfixText⟩)) ∧
    (∀ expression detailed nanos, ∃ entry, entry.id = recorded changes + 1 ∧
      entry.expression = expression ∧ entry.detailed = detailed ∧
      (h.record expression detailed nanos).entries = h.entries ++ [entry]) ∧
    (∀ id entry, h.get? id = some entry ↔ entry ∈ h.entries ∧ entry.id = id) ∧
    (∀ id, h.get? id = none ↔ id ∉ h.ids) ∧
    (∀ id, (h.remove id).1 = h.get? id) ∧
    (∀ id, id ∉ h.ids → (h.remove id).2 = h) ∧
    (∀ front entry behind, h.entries = front ++ entry :: behind →
      (h.remove entry.id).2 = { h with entries := front ++ behind }) ∧
    h.latest = h.entries.reverse ∧ h.size = h.entries.length ∧
    (h.isEmpty = true ↔ h.entries = []) := by
  intro h
  have hn : h.Numbered := numbered_after numbered_new changes
  have hentries : h.entries = kept 0 changes := entries_after numbered_new changes
  have hlast : h.lastId = recorded changes := (lastId_after {} changes).trans (Nat.zero_add _)
  have hsize : h.isEmpty = true ↔ h.entries = [] := List.isEmpty_iff
  refine ⟨hentries, hlast, hn.ascending, fun id hid => ⟨hn.pos id hid, hlast ▸ hn.le_last id hid⟩,
    fun entry he => ?_, fun e d nanos => ⟨h.next e d nanos, congrArg (· + 1) hlast, rfl, rfl, rfl⟩,
    fun id entry => get?_eq_some_iff hn, fun id => get?_eq_none_iff, fun id => ?_,
    fun id hid => ?_, fun front entry behind he => ?_, rfl, rfl, hsize⟩
  · obtain ⟨id, e, d, nanos, rfl⟩ := exists_calculate_of_mem_kept (hentries ▸ he)
    exact calculate_holds id e d nanos
  · rw [remove_eq]
  · rw [remove_eq]
    exact erase_of_not_mem hid
  · rw [remove_eq]
    exact erase_of_entries hn he

end History

end Calculator
