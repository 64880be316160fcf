import Calculator.Proofs.Text.Layout

/-!
# Fewest lines

Where no word is cut, each line of a wrapped text takes all the words it has room for, by any
additive measure with a space of one column. So it keeps ahead of any other way to break the
words into lines that fit, and no other way needs fewer of them. Wrapping the lines again finds
the same words and leaves them as they are.
-/

namespace Calculator.Text

variable {m : Measure} {w : Nat} {ws : List Text} {lines other : List (List Text)}

/-- A way to break words, in order, into lines that fit. -/
structure Breaking (m : Measure) (w : Nat) (ws : List Text) (lines : List (List Text)) : Prop where
  flatten_eq : lines.flatten = ws
  width_le : ∀ l ∈ lines, m.width (joined l) ≤ w

theorem flatten_of_placed {parts : List (List Text)} (h : List.Forall₂ (Placed m w) ws parts)
    (hfits : ∀ word ∈ ws, m.width word ≤ w) : parts.flatten = ws := by
  induction h with
  | nil => rfl
  | @cons word pieces ws parts hword _ ih =>
    rw [List.flatten_cons, hword.whole (hfits word List.mem_cons_self),
      ih fun u hu => hfits u (List.mem_cons_of_mem _ hu)]
    rfl

theorem Layout.breaking (h : Layout m w [] ws lines) (hfits : ∀ word ∈ ws, m.width word ≤ w) :
    Breaking m w ws lines := by
  obtain ⟨parts, hparts, hlines⟩ := h.placed
  exact ⟨hlines.trans (flatten_of_placed hparts hfits), h.width_le⟩

/-- A line that holds another one with a word behind it has room for that word. -/
theorem not_forced (hm : m.Additive) {a b l x y : List Text} {word : Text}
    (hl : l = x ++ a ++ word :: y) (hfits : m.width (joined l) ≤ w) (hb : word ∈ b.head?) :
    ¬ Forced m w a b := by
  intro hforced
  have hsub : (a ++ [word]).Sublist l := by
    rw [hl, List.append_assoc]
    exact ((List.Sublist.refl a).append (List.singleton_sublist.mpr List.mem_cons_self)).trans
      (List.sublist_append_right x _)
  have := hforced word hb
  have := width_joined_le hm hsub
  omega

/-- Lines whose breaks are forced are no more than those of any other breaking, even of one
that has other words in front. -/
theorem length_le_of_forced (hm : m.Additive) (hforced : lines.IsChain (Forced m w))
    (hne : ∀ l ∈ lines, l ≠ []) (hfits : ∀ l ∈ other, m.width (joined l) ≤ w)
    (hsuffix : lines.flatten <:+ other.flatten) :
    lines.length ≤ other.length := by
  induction other generalizing lines with
  | nil =>
    cases lines with
    | nil => exact Nat.le_refl 0
    | cons a lines =>
      have hnil := List.append_eq_nil_iff.mp (List.suffix_nil.mp hsuffix)
      exact absurd hnil.1 (hne a List.mem_cons_self)
  | cons l other ih =>
    cases lines with
    | nil => exact Nat.zero_le _
    | cons a lines =>
      obtain ⟨hfirst, hforced⟩ := List.isChain_cons.mp hforced
      have hne := (List.forall_mem_cons.mp hne).2
      obtain ⟨hl, hfits⟩ := List.forall_mem_cons.mp hfits
      refine Nat.succ_le_succ (ih hforced hne hfits ?_)
      -- Else the line `l` of the other breaking reaches into the line behind `a`.
      obtain ⟨x, hx⟩ := hsuffix
      rw [List.flatten_cons, List.flatten_cons, ← List.append_assoc] at hx
      rcases List.append_eq_append_iff.mp hx with ⟨y, hl', hlines⟩ | ⟨y, -, hother⟩
      · cases y with
        | nil => exact ⟨[], (hlines : lines.flatten = other.flatten)⟩
        | cons word y =>
          have hword := head?_flatten hne
          rw [hlines] at hword
          obtain ⟨b, hb, hfirstWord⟩ := Option.bind_eq_some_iff.mp hword.symm
          exact absurd (hfirst b hb) (not_forced hm hl' hl hfirstWord)
      · exact ⟨y, hother.symm⟩

theorem joined_map_joined (h : ∀ l ∈ lines, l ≠ []) :
    joined (lines.map joined) = joined lines.flatten := by
  induction lines with
  | nil => rfl
  | cons a lines ih =>
    obtain ⟨ha, hrest⟩ := List.forall_mem_cons.mp h
    cases lines with
    | nil => rw [List.map_singleton, joined_singleton, List.flatten_singleton]
    | cons b lines =>
      have hb : (b :: lines).flatten ≠ [] := fun hnil =>
        hrest b List.mem_cons_self (List.append_eq_nil_iff.mp hnil).1
      have hmap : (b :: lines).map joined ≠ [] := List.cons_ne_nil _ _
      rw [List.map_cons, joined_cons hmap, ih hrest, ← joined_append ha hb]
      rfl

/-- A text whose words fit is wrapped into the fewest lines: they break its words so that each
break is forced, and no breaking has fewer. Wrapped again, the lines stay as they are. -/
theorem wrap?_fewest_lines (hm : m.Additive) (hspace : m.columns ' ' = 1) {cs : Text}
    (hw : 0 < w) (hfits : ∀ word ∈ words cs, m.width word ≤ w) :
    ∃ lines, wrap? m w cs = some lines ∧ (∀ line ∈ lines, line ≠ [] ∧ joined (words line) = line) ∧
      Breaking m w (words cs) (lines.map words) ∧ (lines.map words).IsChain (Forced m w) ∧
      (∀ other, Breaking m w (words cs) other → lines.length ≤ other.length) ∧
      wrap? m w (joined lines) = some lines := by
  obtain ⟨lines, hl, hlay⟩ := exists_layout_words hm hspace hw fun word hword hwide =>
    absurd (hfits word hword) (by omega)
  have hbreaks := hlay.breaking hfits
  have hforced := hlay.forced hfits
  have hwrapped := hlay.wrapped
  refine ⟨lines.map joined, hl, fun line hm => ⟨hwrapped.ne_nil line hm, hwrapped.spaced line hm⟩,
    hlay.map_words.symm ▸ hbreaks, hlay.map_words.symm ▸ hforced, fun other hother => ?_, ?_⟩
  · have hsame : lines.flatten = other.flatten :=
      hbreaks.flatten_eq.trans hother.flatten_eq.symm
    rw [List.length_map]
    exact length_le_of_forced hm hforced hlay.ne_nil hother.width_le (hsame ▸ List.suffix_rfl)
  · have hwords : words (joined (lines.map joined)) = words cs := by
      rw [joined_map_joined hlay.ne_nil, hbreaks.flatten_eq,
        words_joined fun _ => isWord_of_mem_words]
    rw [wrap?, hwords]
    exact hl

/-- A word that takes no columns still takes a space before it. -/
theorem wrap?_fewest_lines_of_mark :
    let m := Measure.byCharacter
    let cs := "aa  bb \u0301 c ddddd".toList
    let lines := ["aa bb", "\u0301 c", "ddddd"].map String.toList
    m.Additive ∧ m.columns ' ' = 1 ∧ 0 < 5 ∧ (∀ word ∈ words cs, m.width word ≤ 5) ∧
      wrap? m 5 cs = some lines ∧
      (∀ other, Breaking m 5 (words cs) other → 3 ≤ other.length) ∧
      wrap? m 5 (joined lines) = some lines := by
  intro m cs lines
  have hspace : m.columns ' ' = 1 := Measure.plainNarrow_byCharacter.columns_space
  have hfits : ∀ word ∈ words cs, m.width word ≤ 5 := by decide +kernel
  have hrun : wrap? m 5 cs = some lines := by decide +kernel
  obtain ⟨lines', hl, -, -, -, hfewest, hagain⟩ :=
    wrap?_fewest_lines Measure.additive_byCharacter hspace (by decide) hfits
  cases hl.symm.trans hrun
  exact ⟨Measure.additive_byCharacter, hspace, by decide, hfits, hrun, hfewest, hagain⟩

end Calculator.Text
