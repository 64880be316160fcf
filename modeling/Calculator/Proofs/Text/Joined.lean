import Calculator.Proofs.Text.Wrapping

/-!
# Words on one line

`joined` puts words on a line, a space between each two. The words of such a line are those
that were put on it. By an additive measure fewer words take no more columns.
-/

namespace Calculator.Text

/-- Characters without blanks, at least one. -/
def IsWord (word : Text) : Prop := word ≠ [] ∧ ∀ c ∈ word, isBlank c = false

/-- Words on one line, a space between each two. -/
def joined (ws : List Text) : Text := [' '].intercalate ws

variable {word : Text} {ws : List Text}

/-! ## Joined words -/

theorem joined_nil : joined [] = [] := rfl

theorem joined_singleton (word : Text) : joined [word] = word := List.intercalate_singleton

theorem joined_cons (h : ws ≠ []) : joined (word :: ws) = word ++ ' ' :: joined ws := by
  rw [joined, List.intercalate_cons_of_ne_nil h, List.append_assoc]
  rfl

theorem joined_append {a b : List Text} (ha : a ≠ []) (hb : b ≠ []) :
    joined (a ++ b) = joined a ++ ' ' :: joined b := by
  induction a with
  | nil => exact absurd rfl ha
  | cons word a ih =>
    by_cases h : a = []
    · subst h
      rw [joined_singleton]
      exact joined_cons hb
    · rw [List.cons_append, joined_cons (by simp [h]), ih h, joined_cons h, List.append_assoc]
      rfl

theorem joined_ne_nil (h : ws ≠ []) (hws : ∀ word ∈ ws, IsWord word) : joined ws ≠ [] := by
  cases ws with
  | nil => exact absurd rfl h
  | cons word ws =>
    by_cases hnil : ws = []
    · rw [hnil, joined_singleton]
      exact (hws word List.mem_cons_self).1
    · rw [joined_cons hnil]
      simp

section
variable {m : Measure} (hm : m.Additive)
include hm

theorem width_joined_cons (h : ws ≠ []) :
    m.width (joined (word :: ws)) = m.width word + m.columns ' ' + m.width (joined ws) := by
  rw [joined_cons h, hm, hm.width_cons, Nat.add_assoc]

theorem width_joined_concat (h : ws ≠ []) (word : Text) :
    m.width (joined (ws ++ [word])) = m.width (joined ws) + m.columns ' ' + m.width word := by
  rw [joined_append h (List.cons_ne_nil _ _), joined_singleton, hm, hm.width_cons, Nat.add_assoc]

theorem width_joined_le {a b : List Text} (h : a.Sublist b) :
    m.width (joined a) ≤ m.width (joined b) := by
  induction h with
  | slnil => exact Nat.le_refl _
  | @cons a b word hab ih =>
    by_cases hb : b = []
    · subst hb
      cases List.sublist_nil.mp hab
      rw [joined_nil, hm.width_nil]
      exact Nat.zero_le _
    · rw [width_joined_cons hm hb]
      omega
  | @cons_cons a b word hab ih =>
    by_cases hb : b = []
    · subst hb
      cases List.sublist_nil.mp hab
      exact Nat.le_refl _
    by_cases ha : a = []
    · rw [ha, joined_singleton, width_joined_cons hm hb]
      omega
    · rw [width_joined_cons hm ha, width_joined_cons hm hb]
      omega

end

/-! ## Words of a text -/

theorem words_of_dropWhile_nil {cs : Text} (h : cs.dropWhile isBlank = []) : words cs = [] := by
  rw [words]
  split
  · rfl
  · rename_i h'
    cases h.symm.trans h'

theorem words_nil : words [] = [] := words_of_dropWhile_nil rfl

theorem words_of_dropWhile {cs rest : Text} {c : Char} (h : cs.dropWhile isBlank = c :: rest) :
    words cs = (c :: rest.takeWhile (!isBlank ·)) :: words (rest.dropWhile (!isBlank ·)) := by
  rw [words]
  split
  · rename_i h'
    cases h.symm.trans h'
  · rename_i h'
    cases h.symm.trans h'
    rfl

theorem words_cons_of_blank {c : Char} (h : isBlank c = true) (cs : Text) :
    words (c :: cs) = words cs := by
  have hdrop : (c :: cs).dropWhile isBlank = cs.dropWhile isBlank := List.dropWhile_cons_of_pos h
  cases hcs : cs.dropWhile isBlank with
  | nil => rw [words_of_dropWhile_nil (hdrop.trans hcs), words_of_dropWhile_nil hcs]
  | cons d rest => rw [words_of_dropWhile (hdrop.trans hcs), words_of_dropWhile hcs]

/-- A word in front of a blank, or of nothing, is the first one. -/
theorem words_append (hword : IsWord word) {rest : Text} (h : ∀ c ∈ rest.head?, isBlank c = true) :
    words (word ++ rest) = word :: words rest := by
  obtain ⟨hne, hchars⟩ := hword
  cases word with
  | nil => exact absurd rfl hne
  | cons c word =>
    have hfirst : (c :: word ++ rest).dropWhile isBlank = c :: (word ++ rest) :=
      List.dropWhile_cons_of_neg (by simp [hchars c List.mem_cons_self])
    have hword : ∀ a ∈ word, (!isBlank a) = true := fun a ha => by
      rw [hchars a (List.mem_cons_of_mem c ha)]
      rfl
    have hstop : ∀ a ∈ rest.head?, (!isBlank a) = false := fun a ha => by
      rw [h a ha]
      rfl
    rw [words_of_dropWhile hfirst, Runs.takeWhile_append hword hstop,
      Runs.dropWhile_append hword hstop]

theorem isWord_of_mem_words {cs : Text} (h : word ∈ words cs) : IsWord word := by
  refine ⟨?_, fun c hc => (of_mem_words h hc).2⟩
  fun_induction words cs with
  | case1 => cases h
  | case2 cs c rest _ _ ih =>
    rcases List.mem_cons.mp h with rfl | h
    · exact List.cons_ne_nil _ _
    · exact ih h

theorem words_joined (hws : ∀ word ∈ ws, IsWord word) : words (joined ws) = ws := by
  induction ws with
  | nil => exact words_nil
  | cons word ws ih =>
    have hword : IsWord word := hws word List.mem_cons_self
    have hrest := ih fun word h => hws word (List.mem_cons_of_mem _ h)
    by_cases hnil : ws = []
    · have hone : words (word ++ []) = word :: words [] := words_append hword nofun
      rw [List.append_nil, words_nil] at hone
      rw [hnil, joined_singleton, hone]
    · rw [joined_cons hnil, words_append hword (by rintro _ ⟨⟩; rfl), words_cons_of_blank rfl,
        hrest]

end Calculator.Text
