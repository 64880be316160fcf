import Calculator.Proofs.Runs
import Calculator.Text.Wrap

/-!
# Words and wrapped lines

`inked` is what a text shows: its characters that are not blank. The words of a text hold
just these, in their order. Wrapping moves words to lines and cuts those that are too wide,
so it keeps these characters as well; and it has an answer where every word that is too wide can
be cut (`Cuttable`). This holds whatever the measure is.
-/

namespace Calculator.Text

/-- The characters of a text that are not blank. -/
def inked (cs : Text) : Text := cs.filter (!isBlank ·)

@[simp] theorem inked_nil : inked [] = [] := rfl

@[simp] theorem inked_append (a b : Text) : inked (a ++ b) = inked a ++ inked b :=
  List.filter_append ..

theorem inked_eq_nil {cs : Text} (h : ∀ c ∈ cs, isBlank c = true) : inked cs = [] :=
  List.filter_eq_nil_iff.mpr fun c hc => by
    rw [h c hc]
    exact Bool.false_ne_true

theorem inked_eq_self {cs : Text} (h : ∀ c ∈ cs, isBlank c = false) : inked cs = cs :=
  List.filter_eq_self.mpr fun c hc => by
    rw [h c hc]
    rfl

theorem inked_cons_of_blank {c : Char} (h : isBlank c = true) (cs : Text) :
    inked (c :: cs) = inked cs :=
  List.filter_cons_of_neg (by rw [h]; exact Bool.false_ne_true)

theorem mem_inked {cs : Text} {c : Char} : c ∈ inked cs ↔ c ∈ cs ∧ isBlank c = false := by
  simp [inked]

/-! ## Words -/

theorem mem_intercalate_space {words : List Text} (h : c ∈ [' '].intercalate words) :
    c = ' ' ∨ ∃ word ∈ words, c ∈ word := by
  induction words with
  | nil => cases h
  | cons word words ih =>
    by_cases hw : words = []
    · subst hw
      rw [List.intercalate_singleton] at h
      exact .inr ⟨word, List.mem_cons_self, h⟩
    · rw [List.intercalate_cons_of_ne_nil hw, List.mem_append, List.mem_append,
        List.mem_singleton] at h
      rcases h with (h | h) | h
      · exact .inr ⟨word, List.mem_cons_self, h⟩
      · exact .inl h
      · exact (ih h).imp_right fun ⟨word, hm, hc⟩ => ⟨word, List.mem_cons_of_mem _ hm, hc⟩

theorem flatten_words (cs : Text) : (words cs).flatten = inked cs := by
  fun_induction words cs with
  | case1 cs h =>
    rw [← List.takeWhile_append_dropWhile (p := isBlank) (l := cs), h, inked_append,
      inked_eq_nil fun c => Runs.mem_takeWhile]
    rfl
  | case2 cs c rest h _ ih =>
    -- A word ends where the first blank stands, and what follows has the other words.
    have hword : ∀ a ∈ c :: rest.takeWhile (!isBlank ·), isBlank a = false := by
      rintro a (_ | ⟨_, ha⟩)
      · exact Runs.stops_dropWhile cs c (by rw [h]; rfl)
      · simpa using Runs.mem_takeWhile ha
    have hcs : cs = cs.takeWhile isBlank ++ ((c :: rest.takeWhile (!isBlank ·)) ++
        rest.dropWhile (!isBlank ·)) := by
      rw [List.cons_append, List.takeWhile_append_dropWhile, ← h,
        List.takeWhile_append_dropWhile]
    rw [List.flatten_cons, ih]
    refine Eq.trans ?_ (congrArg inked hcs.symm)
    rw [inked_append, inked_append, inked_eq_nil fun c => Runs.mem_takeWhile, inked_eq_self hword]
    rfl

theorem of_mem_words {cs word : Text} (h : word ∈ words cs) (hc : c ∈ word) :
    c ∈ cs ∧ isBlank c = false := by
  have hm : c ∈ (words cs).flatten := List.mem_flatten.mpr ⟨word, h, hc⟩
  rwa [flatten_words, mem_inked] at hm

/-! ## Wrapped lines -/

variable {m : Measure}

theorem splitFitting_append (room : Nat) (cs : Text) :
    (splitFitting m room cs).1 ++ (splitFitting m room cs).2 = cs := by
  induction cs generalizing room with
  | nil => rfl
  | cons c cs ih =>
    unfold splitFitting
    split
    · exact congrArg (c :: ·) (ih _)
    · rfl

theorem exists_pieces? {w : Nat} {word : Text} (h : ∀ c ∈ word, m.columnsEastAsian c ≤ w) :
    ∃ pieces, pieces? m w word = some pieces ∧ pieces.flatten = word := by
  fun_induction pieces? m w word with
  | case1 => exact ⟨[], rfl, rfl⟩
  | case2 c cs hc _ cut ih =>
    have hcut : cut.1 ++ cut.2 = cs := splitFitting_append _ cs
    obtain ⟨pieces, hp, hflat⟩ := ih fun a ha =>
      h a (List.mem_cons_of_mem c (hcut ▸ List.mem_append_right cut.1 ha))
    refine ⟨(c :: cut.1) :: pieces, by rw [hp]; rfl, ?_⟩
    rw [List.flatten_cons, hflat, List.cons_append, hcut]
  | case3 c cs hc => exact absurd (h c List.mem_cons_self) hc

theorem flatten_closeLine (line : Text) : (closeLine line).flatten = line := by
  unfold closeLine
  split
  · rename_i h
    exact h.symm
  · exact List.append_nil line

/-- What is on the line comes first, then the words in their order. -/
theorem exists_wrapWords? {w : Nat} {ws : List Text}
    (h : ∀ word ∈ ws, w < m.width word → ∀ c ∈ word, m.columnsEastAsian c ≤ w)
    (line : Text) (used : Nat) :
    ∃ lines, wrapWords? m w line used ws = some lines ∧
      inked lines.flatten = inked line ++ inked ws.flatten := by
  induction ws generalizing line used with
  | nil =>
    refine ⟨closeLine line, rfl, ?_⟩
    rw [flatten_closeLine]
    exact (List.append_nil _).symm
  | cons word ws ih =>
    have hrest := ih fun u hu => h u (List.mem_cons_of_mem _ hu)
    rw [List.flatten_cons, inked_append]
    unfold wrapWords?
    -- The word is cut up, starts a line, goes to the next line, or stays on this one.
    split
    · rename_i hwide
      obtain ⟨pieces, hp, hflat⟩ := exists_pieces? (h word List.mem_cons_self hwide)
      obtain ⟨lines, hl, hink⟩ := hrest [] 0
      refine ⟨closeLine line ++ pieces ++ lines, by rw [hp, hl]; rfl, ?_⟩
      simp only [List.flatten_append, inked_append, flatten_closeLine, hflat, hink, inked_nil,
        List.nil_append, List.append_assoc]
    split
    · rename_i hline
      obtain ⟨lines, hl, hink⟩ := hrest word (m.width word)
      exact ⟨lines, hl, by rw [hink, hline]; rfl⟩
    split
    · obtain ⟨lines, hl, hink⟩ := hrest word (m.width word)
      refine ⟨line :: lines, by rw [hl]; rfl, ?_⟩
      rw [List.flatten_cons, inked_append, hink]
    · obtain ⟨lines, hl, hink⟩ := hrest (line ++ ' ' :: word) (used + 1 + m.width word)
      refine ⟨lines, hl, ?_⟩
      rw [hink, inked_append, inked_cons_of_blank rfl, List.append_assoc]

/-- Every character of a word that is too wide for a line fits on a line. -/
def Cuttable (m : Measure) (w : Nat) (cs : Text) : Prop :=
  ∀ word ∈ words cs, w < m.width word → ∀ c ∈ word, m.columnsEastAsian c ≤ w

theorem cuttable_of_forall {w : Nat} {cs : Text} (h : ∀ c ∈ cs, m.columnsEastAsian c ≤ w) :
    Cuttable m w cs :=
  fun _ hword _ c hc => h c (of_mem_words hword hc).1

/-- A text whose wide words can be cut is wrapped, and nothing but blanks is lost or added. -/
theorem exists_wrap? {w : Nat} (hw : 0 < w) {cs : Text} (h : Cuttable m w cs) :
    ∃ lines, wrap? m w cs = some lines ∧ inked lines.flatten = inked cs := by
  obtain ⟨lines, hl, hink⟩ := exists_wrapWords? h [] 0
  refine ⟨lines, by rw [wrap?, if_neg (by omega), hl], ?_⟩
  rw [hink, flatten_words]
  exact inked_eq_self fun c hc => (mem_inked.mp hc).2

end Calculator.Text
