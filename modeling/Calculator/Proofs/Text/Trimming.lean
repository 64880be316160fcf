import Calculator.Proofs.Runs
import Calculator.Text.Blank

/-!
# Trimmed texts

What `trim` takes away is blank, and what it leaves neither begins nor ends with a blank. The
texts that it leaves as they are are those with no blank at either end.
-/

namespace Calculator.Text

variable {cs : Text} {c : Char}

structure Trimmed (cs : Text) : Prop where
  head : ∀ c ∈ cs.head?, isBlank c = false
  last : ∀ c ∈ cs.getLast?, isBlank c = false

theorem dropEndWhile_spec (p : Char → Bool) (cs : Text) :
    ∃ back, cs = dropEndWhile p cs ++ back ∧ (∀ c ∈ back, p c = true) ∧
      ∀ c ∈ (dropEndWhile p cs).getLast?, p c = false := by
  refine ⟨(cs.reverse.takeWhile p).reverse, ?_,
    fun c hc => Runs.mem_takeWhile (List.mem_reverse.mp hc), ?_⟩
  · rw [dropEndWhile, ← List.reverse_append, List.takeWhile_append_dropWhile, List.reverse_reverse]
  · rw [dropEndWhile, List.getLast?_reverse]
    exact Runs.stops_dropWhile _

theorem trim_spec (cs : Text) :
    ∃ front back, cs = front ++ trim cs ++ back ∧ (∀ c ∈ front, isBlank c = true) ∧
      (∀ c ∈ back, isBlank c = true) ∧ Trimmed (trim cs) := by
  obtain ⟨back, hcs, hback, hlast⟩ := dropEndWhile_spec isBlank (cs.dropWhile isBlank)
  refine ⟨cs.takeWhile isBlank, back, ?_, fun c => Runs.mem_takeWhile, hback, fun c hc => ?_, hlast⟩
  · rw [List.append_assoc]
    exact List.takeWhile_append_dropWhile.symm.trans (congrArg _ hcs)
  · refine Runs.stops_dropWhile cs c ?_
    change cs.dropWhile isBlank = trim cs ++ back at hcs
    rw [hcs, List.head?_append, Option.mem_def.mp hc]
    rfl

theorem trimmed_trim (cs : Text) : Trimmed (trim cs) :=
  have ⟨_, _, _, _, _, h⟩ := trim_spec cs
  h

theorem Trimmed.trim_eq (h : Trimmed cs) : trim cs = cs := by
  have hfront : cs.dropWhile isBlank = cs := Runs.dropWhile_append (r := []) nofun h.head
  rw [trim, stripWhile, hfront, dropEndWhile_of_neg h.last]

theorem trim_eq_self_iff : trim cs = cs ↔ Trimmed cs :=
  ⟨fun h => h ▸ trimmed_trim cs, Trimmed.trim_eq⟩

theorem trim_trim (cs : Text) : trim (trim cs) = trim cs := (trimmed_trim cs).trim_eq

theorem trim_infix (cs : Text) : trim cs <:+: cs :=
  have ⟨front, back, h, _⟩ := trim_spec cs
  ⟨front, back, h.symm⟩

theorem trim_ne_nil (hmem : c ∈ cs) (hc : isBlank c = false) : trim cs ≠ [] := by
  intro hnil
  obtain ⟨front, back, hcs, hfront, hback, -⟩ := trim_spec cs
  rw [hnil, List.append_nil] at hcs
  rw [hcs] at hmem
  have hblank := (List.mem_append.mp hmem).elim (hfront c) (hback c)
  exact absurd hblank (by simp [hc])

theorem trim_cons_of_blank (hc : isBlank c = true) (cs : Text) : trim (c :: cs) = trim cs := by
  rw [trim, trim, stripWhile, stripWhile, List.dropWhile_cons_of_pos hc]

end Calculator.Text
