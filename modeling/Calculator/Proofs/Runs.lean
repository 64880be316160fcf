import Calculator.Text.Basic

/-!
# Runs

A run is a longest front of a list in a class of elements: everything in it is in the
class, and what comes next is not.
-/

namespace Calculator.Runs

variable {α : Type} {p : α → Bool} {r s : List α}

theorem takeWhile_append (hr : ∀ a ∈ r, p a = true) (hs : ∀ a ∈ s.head?, p a = false) :
    (r ++ s).takeWhile p = r := by
  rw [List.takeWhile_append_of_pos hr]
  cases s with
  | nil => rw [List.takeWhile_nil, List.append_nil]
  | cons a s => simp [hs a rfl]

theorem dropWhile_append (hr : ∀ a ∈ r, p a = true) (hs : ∀ a ∈ s.head?, p a = false) :
    (r ++ s).dropWhile p = s := by
  rw [List.dropWhile_append_of_pos hr]
  cases s with
  | nil => rfl
  | cons a s => simp [hs a rfl]

theorem mem_takeWhile {l : List α} {a : α} (h : a ∈ l.takeWhile p) : p a = true :=
  List.all_eq_true.mp List.all_takeWhile a h

theorem stops_dropWhile (l : List α) : ∀ a ∈ (l.dropWhile p).head?, p a = false := by
  intro a ha
  have h := List.head?_dropWhile_not p l
  rw [Option.mem_def.mp ha] at h
  simpa using h

theorem exists_run (p : α → Bool) (l : List α) :
    ∃ r s, l = r ++ s ∧ (∀ a ∈ r, p a = true) ∧ ∀ a ∈ s.head?, p a = false :=
  ⟨_, _, List.takeWhile_append_dropWhile.symm, fun _ => mem_takeWhile, stops_dropWhile l⟩

theorem ne_nil_of_head {a : α} {l : List α} (ha : p a = true) (h : a :: l = r ++ s)
    (hs : ∀ a ∈ s.head?, p a = false) : r ≠ [] := by
  rintro rfl
  rw [List.nil_append] at h
  subst h
  rw [hs a rfl] at ha
  cases ha

end Calculator.Runs
