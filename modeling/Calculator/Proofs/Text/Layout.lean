import Calculator.Proofs.Text.Joined
import Calculator.Text.Width
import Mathlib.Data.List.Chain
import Mathlib.Data.List.Forall2

/-!
# Words on lines

`Layout` says all of how wrapping puts words on lines: a word that fits is on one line as a
whole, a wider one is cut into pieces that stand alone, each line fits, and as long as no word
is cut a line ends only where the next word has no room. What the wrapped lines show
(`Wrapped`) is read off such a layout.
-/

namespace Calculator.Text

variable {m : Measure} {w : Nat} {word : Text} {ws : List Text}

/-! ## Pieces -/

def widthEastAsian (m : Measure) : Text → Nat
  | [] => 0
  | c :: cs => m.columnsEastAsian c + widthEastAsian m cs

theorem columnsEastAsian_le_widthEastAsian {cs : Text} {c : Char} (h : c ∈ cs) :
    m.columnsEastAsian c ≤ widthEastAsian m cs := by
  induction h with
  | head cs => exact Nat.le_add_right _ _
  | tail d _ ih => exact Nat.le_add_left_of_le ih

theorem width_le_widthEastAsian (hm : m.Additive) (he : m.EastAsianWider) (cs : Text) :
    m.width cs ≤ widthEastAsian m cs := by
  induction cs with
  | nil => exact Nat.le_of_eq hm.width_nil
  | cons c cs ih =>
    have := he c
    rw [hm.width_cons, widthEastAsian]
    omega

theorem widthEastAsian_splitFitting_le (room : Nat) (cs : Text) :
    widthEastAsian m (splitFitting m room cs).1 ≤ room := by
  induction cs generalizing room with
  | nil => exact Nat.zero_le _
  | cons c cs ih =>
    unfold splitFitting
    split
    · have := ih (room - m.columnsEastAsian c)
      rw [widthEastAsian]
      omega
    · exact Nat.zero_le _

/-- A word that is too wide can be cut into pieces that fit. -/
def CutsToFit (m : Measure) (w : Nat) (word : Text) : Prop :=
  w < m.width word → ∃ pieces, pieces? m w word = some pieces ∧ pieces.flatten = word ∧
    ∀ piece ∈ pieces, piece ≠ [] ∧ m.width piece ≤ w

/-- The pieces of a word are no wider than a line, as they are no wider in East Asian context. -/
theorem of_mem_pieces (hm : m.Additive) (he : m.EastAsianWider) (w : Nat) (word : Text) :
    ∀ pieces ∈ pieces? m w word, ∀ piece ∈ pieces, piece ≠ [] ∧ m.width piece ≤ w := by
  fun_induction pieces? m w word with
  | case1 =>
    rintro _ ⟨⟩ piece hp
    cases hp
  | case2 c cs hc _ cut ih =>
    intro pieces h
    obtain ⟨rest, hrest, rfl⟩ := Option.map_eq_some_iff.mp h
    refine List.forall_mem_cons.mpr ⟨⟨List.cons_ne_nil _ _, ?_⟩, ih rest hrest⟩
    have hcut : widthEastAsian m cut.1 ≤ w - m.columnsEastAsian c :=
      widthEastAsian_splitFitting_le _ cs
    have hplain := width_le_widthEastAsian hm he (c :: cut.1)
    rw [widthEastAsian] at hplain
    omega
  | case3 => exact fun pieces h => by cases h

theorem cutsToFit_of_cuttable (hm : m.Additive) (he : m.EastAsianWider) {cs : Text}
    (h : Cuttable m w cs) : ∀ word ∈ words cs, CutsToFit m w word := by
  intro word hword hwide
  obtain ⟨pieces, hp, hflat⟩ := exists_pieces? (h word hword hwide)
  exact ⟨pieces, hp, hflat, of_mem_pieces hm he w word pieces hp⟩

/-! ## Layouts -/

/-- The parts of a word: the word itself where it fits on a line, else its pieces. -/
structure Placed (m : Measure) (w : Nat) (word : Text) (parts : List Text) : Prop where
  flatten_eq : parts.flatten = word
  ne_nil : ∀ part ∈ parts, part ≠ []
  whole : m.width word ≤ w → parts = [word]

/-- The first word of the line `b` has no room behind the line `a`. -/
def Forced (m : Measure) (w : Nat) (a b : List Text) : Prop :=
  ∀ word ∈ b.head?, w < m.width (joined (a ++ [word]))

/-- How words stand on lines behind the words of a line under way. -/
structure Layout (m : Measure) (w : Nat) (line ws : List Text) (lines : List (List Text)) :
    Prop where
  placed : ∃ parts, List.Forall₂ (Placed m w) ws parts ∧ lines.flatten = line ++ parts.flatten
  ne_nil : ∀ l ∈ lines, l ≠ []
  width_le : ∀ l ∈ lines, m.width (joined l) ≤ w
  forced : (∀ word ∈ ws, m.width word ≤ w) → lines.IsChain (Forced m w)

/-- A line under way, unless it is empty. -/
def started (line : List Text) : List (List Text) := if line = [] then [] else [line]

theorem mem_started {line l : List Text} : l ∈ started line ↔ line ≠ [] ∧ l = line := by
  unfold started
  split <;> simp [*]

theorem flatten_started (line : List Text) : (started line).flatten = line := by
  unfold started
  split
  · exact Eq.symm ‹_›
  · exact List.append_nil line

theorem head?_flatten {lines : List (List Text)} (h : ∀ l ∈ lines, l ≠ []) :
    lines.flatten.head? = lines.head?.bind List.head? := by
  cases lines with
  | nil => rfl
  | cons l lines =>
    cases l with
    | nil => exact absurd rfl (h [] List.mem_cons_self)
    | cons word l => rfl

namespace Layout

variable {line : List Text} {lines : List (List Text)}

theorem nil (hline : m.width (joined line) ≤ w) : Layout m w line [] (started line) where
  placed := ⟨[], .nil, by rw [flatten_started]; exact (List.append_nil line).symm⟩
  ne_nil l hl := by
    obtain ⟨hne, rfl⟩ := mem_started.mp hl
    exact hne
  width_le l hl := by rwa [(mem_started.mp hl).2]
  forced _ := by
    unfold started
    split
    · exact .nil
    · exact .singleton _

/-- A word that is too wide is cut into pieces, each on a line of its own. -/
theorem cut (hline : m.width (joined line) ≤ w) (hwide : w < m.width word) {pieces : List Text}
    (hflat : pieces.flatten = word) (hpieces : ∀ piece ∈ pieces, piece ≠ [] ∧ m.width piece ≤ w)
    (h : Layout m w [] ws lines) :
    Layout m w line (word :: ws) (started line ++ pieces.map ([·]) ++ lines) := by
  have hmem {l : List Text} (hl : l ∈ started line ++ pieces.map ([·]) ++ lines) :
      (line ≠ [] ∧ l = line) ∨ (∃ piece ∈ pieces, [piece] = l) ∨ l ∈ lines := by
    rwa [List.mem_append, List.mem_append, mem_started, List.mem_map, or_assoc] at hl
  constructor
  · obtain ⟨parts, hparts, hlines⟩ := h.placed
    have hword : Placed m w word pieces :=
      ⟨hflat, fun piece hp => (hpieces piece hp).1, fun hfits => by omega⟩
    refine ⟨pieces :: parts, .cons hword hparts, ?_⟩
    rw [List.flatten_append, List.flatten_append, flatten_started, hlines, List.flatten_cons,
      List.nil_append, List.append_assoc, ← List.flatMap_def, List.flatMap_singleton']
  · intro l hl
    rcases hmem hl with ⟨hne, rfl⟩ | ⟨piece, -, rfl⟩ | hl
    · exact hne
    · exact List.cons_ne_nil _ _
    · exact h.ne_nil l hl
  · intro l hl
    rcases hmem hl with ⟨-, rfl⟩ | ⟨piece, hp, rfl⟩ | hl
    · exact hline
    · rw [joined_singleton]
      exact (hpieces piece hp).2
    · exact h.width_le l hl
  · intro hfits
    have := hfits word List.mem_cons_self
    omega

theorem placed_cons (hword : word ≠ []) {parts : List (List Text)}
    (h : List.Forall₂ (Placed m w) ws parts) :
    List.Forall₂ (Placed m w) (word :: ws) ([word] :: parts) :=
  .cons ⟨List.append_nil word, fun _ hp => List.mem_singleton.mp hp ▸ hword, fun _ => rfl⟩ h

/-- A word with room behind the line stays on it. -/
theorem stay (hword : word ≠ []) (h : Layout m w (line ++ [word]) ws lines) :
    Layout m w line (word :: ws) lines where
  placed := by
    obtain ⟨parts, hparts, hlines⟩ := h.placed
    exact ⟨[word] :: parts, placed_cons hword hparts, by rw [hlines, List.append_assoc]; rfl⟩
  ne_nil := h.ne_nil
  width_le := h.width_le
  forced hfits := h.forced fun word hw => hfits word (List.mem_cons_of_mem _ hw)

/-- The lines of a layout begin with the words of the line under way. -/
theorem head?_of_head? (h : Layout m w (word :: line) ws lines) {l : List Text}
    (hl : l ∈ lines.head?) : l.head? = some word := by
  obtain ⟨parts, -, hlines⟩ := h.placed
  have hfirst := head?_flatten h.ne_nil
  rw [hlines, Option.mem_def.mp hl] at hfirst
  exact hfirst.symm

/-- A word without room behind the line starts the next one. -/
theorem next (hline : m.width (joined line) ≤ w) (hne : line ≠ []) (hword : word ≠ [])
    (hfull : w < m.width (joined (line ++ [word]))) (h : Layout m w [word] ws lines) :
    Layout m w line (word :: ws) (line :: lines) where
  placed := by
    obtain ⟨parts, hparts, hlines⟩ := h.placed
    exact ⟨[word] :: parts, placed_cons hword hparts, congrArg (line ++ ·) hlines⟩
  ne_nil := List.forall_mem_cons.mpr ⟨hne, h.ne_nil⟩
  width_le := List.forall_mem_cons.mpr ⟨hline, h.width_le⟩
  forced hfits := by
    refine List.isChain_cons.mpr ⟨fun l hl first hfirst => ?_,
      h.forced fun word hw => hfits word (List.mem_cons_of_mem _ hw)⟩
    cases (h.head?_of_head? hl).symm.trans hfirst
    exact hfull

end Layout

theorem closeLine_joined {line : List Text} (hline : ∀ word ∈ line, IsWord word) :
    closeLine (joined line) = (started line).map joined := by
  by_cases h : line = []
  · subst h
    rfl
  · rw [closeLine, if_neg (joined_ne_nil h hline), started, if_neg h]
    rfl

/-- The words are laid out where each that is too wide can be cut. The columns used up on a line
are those of the words on it. -/
theorem exists_layout (hm : m.Additive) (hspace : m.columns ' ' = 1)
    (hws : ∀ word ∈ ws, IsWord word) (hcut : ∀ word ∈ ws, CutsToFit m w word)
    {line : List Text} (hline : ∀ word ∈ line, IsWord word) (hw : m.width (joined line) ≤ w) :
    ∃ lines, wrapWords? m w (joined line) (m.width (joined line)) ws = some (lines.map joined) ∧
      Layout m w line ws lines := by
  induction ws generalizing line with
  | nil => exact ⟨started line, congrArg some (closeLine_joined hline), .nil hw⟩
  | cons word ws ih =>
    have hword := hws word List.mem_cons_self
    have hrest (line : List Text) (hline : ∀ word ∈ line, IsWord word)
        (hw : m.width (joined line) ≤ w) :=
      ih (fun u hu => hws u (List.mem_cons_of_mem _ hu))
        (fun u hu => hcut u (List.mem_cons_of_mem _ hu)) hline hw
    have hconcat : ∀ u ∈ line ++ [word], IsWord u := fun u hu =>
      (List.mem_append.mp hu).elim (hline u) fun hu => List.mem_singleton.mp hu ▸ hword
    have hstart (hfits : m.width word ≤ w) :=
      hrest [word] (List.forall_mem_singleton.mpr hword) (by rwa [joined_singleton])
    rw [joined_singleton] at hstart
    unfold wrapWords?
    split
    · rename_i hwide
      obtain ⟨pieces, hp, hflat, hpieces⟩ := hcut word List.mem_cons_self hwide
      have hempty : m.width (joined []) = 0 := hm.width_nil
      obtain ⟨lines, hl, hlay⟩ := hrest [] (fun u hu => by cases hu) (by omega)
      refine ⟨_, ?_, hlay.cut hw hwide hflat hpieces⟩
      have hones : (pieces.map ([·])).map joined = pieces := by
        rw [List.map_map]
        exact List.map_id'' joined_singleton pieces
      rw [hp, closeLine_joined hline, List.map_append, List.map_append, hones]
      rw [hempty, joined_nil] at hl
      rw [hl]
      rfl
    rename_i hfits
    obtain ⟨lines, hl, hlay⟩ := hstart (by omega)
    by_cases hne : line = []
    · subst hne
      exact ⟨lines, (if_pos joined_nil).trans hl, .stay hword.1 hlay⟩
    have hused : m.width (joined (line ++ [word])) =
        m.width (joined line) + 1 + m.width word := by
      rw [width_joined_concat hm hne, hspace]
    rw [if_neg (joined_ne_nil hne hline)]
    split
    · refine ⟨line :: lines, ?_, .next hw hne hword.1 (by omega) hlay⟩
      rw [hl]
      rfl
    · obtain ⟨lines, hl, hlay⟩ := hrest (line ++ [word]) hconcat (by omega)
      refine ⟨lines, ?_, .stay hword.1 hlay⟩
      rw [← hl, hused, joined_append hne (List.cons_ne_nil _ _), joined_singleton]

/-! ## Wrapped lines -/

section
variable {parts : List (List Text)}

theorem isWord_of_placed (h : List.Forall₂ (Placed m w) ws parts) (hws : ∀ word ∈ ws, IsWord word) :
    ∀ part ∈ parts.flatten, IsWord part := by
  induction h with
  | nil => exact fun part hp => by cases hp
  | @cons word pieces ws parts hword _ ih =>
    rw [List.flatten_cons, List.forall_mem_append]
    refine ⟨fun piece hp => ⟨hword.ne_nil piece hp, fun c hc => ?_⟩,
      ih fun u hu => hws u (List.mem_cons_of_mem _ hu)⟩
    refine (hws word List.mem_cons_self).2 c ?_
    rw [← hword.flatten_eq]
    exact List.mem_flatten.mpr ⟨piece, hp, hc⟩

theorem flatten_flatten_of_placed (h : List.Forall₂ (Placed m w) ws parts) :
    parts.flatten.flatten = ws.flatten := by
  induction h with
  | nil => rfl
  | cons hword _ ih =>
    rw [List.flatten_cons, List.flatten_append, ih, hword.flatten_eq, List.flatten_cons]

theorem mem_flatten_of_placed (h : List.Forall₂ (Placed m w) ws parts) (hword : word ∈ ws)
    (hfits : m.width word ≤ w) : word ∈ parts.flatten := by
  induction h with
  | nil => cases hword
  | cons hplaced _ ih =>
    rw [List.flatten_cons, List.mem_append]
    rcases List.mem_cons.mp hword with rfl | hword
    · exact .inl (hplaced.whole hfits ▸ List.mem_singleton_self word)
    · exact .inr (ih hword)

end

/-- What wrapped lines show of a text. -/
structure Wrapped (m : Measure) (w : Nat) (cs : Text) (lines : List Text) : Prop where
  ne_nil : ∀ line ∈ lines, line ≠ []
  width_le : ∀ line ∈ lines, m.width line ≤ w
  /-- Single spaces stand between the words of a line and none at its ends. -/
  spaced : ∀ line ∈ lines, joined (words line) = line
  /-- Spaces apart, the lines are the text without its blanks. -/
  inked_eq : lines.flatten.filter (· ≠ ' ') = inked cs
  /-- The words on the lines are the parts of the words of the text, in order. -/
  placed : ∃ parts, List.Forall₂ (Placed m w) (words cs) parts ∧ lines.flatMap words = parts.flatten
  whole : ∀ word ∈ words cs, m.width word ≤ w → ∃ line ∈ lines, word ∈ words line

theorem filter_joined (hws : ∀ word ∈ ws, IsWord word) :
    (joined ws).filter (· ≠ ' ') = ws.flatten := by
  have hink : (joined ws).filter (· ≠ ' ') = inked (joined ws) := by
    refine List.filter_congr fun c hc => ?_
    rcases mem_intercalate_space hc with rfl | ⟨word, hword, hc⟩
    · rfl
    · have hblank := (hws word hword).2 c hc
      have hne : c ≠ ' ' := by
        rintro rfl
        cases hblank
      simp [hblank, hne]
  rw [hink, ← flatten_words, words_joined hws]

section
variable {cs : Text} {lines : List (List Text)} (h : Layout m w [] (words cs) lines)
include h

theorem Layout.isWord : ∀ l ∈ lines, ∀ word ∈ l, IsWord word := by
  intro l hl word hm
  obtain ⟨parts, hparts, hlines⟩ := h.placed
  have hpart : word ∈ lines.flatten := List.mem_flatten.mpr ⟨l, hl, hm⟩
  rw [hlines, List.nil_append] at hpart
  exact isWord_of_placed hparts (fun _ => isWord_of_mem_words) word hpart

theorem Layout.map_words : (lines.map joined).map words = lines := by
  rw [List.map_map]
  exact (List.map_congr_left fun l hl => words_joined (h.isWord l hl)).trans (List.map_id lines)

theorem Layout.wrapped : Wrapped m w cs (lines.map joined) := by
  obtain ⟨parts, hparts, hlines⟩ := h.placed
  rw [List.nil_append] at hlines
  have hwords : (lines.map joined).flatMap words = parts.flatten := by
    rw [List.flatMap_def, h.map_words, hlines]
  constructor
  · exact List.forall_mem_map.mpr fun l hl => joined_ne_nil (h.ne_nil l hl) (h.isWord l hl)
  · exact List.forall_mem_map.mpr h.width_le
  · exact List.forall_mem_map.mpr fun l hl => by rw [words_joined (h.isWord l hl)]
  · calc (lines.map joined).flatten.filter (· ≠ ' ')
        = (lines.map List.flatten).flatten := by
          rw [List.filter_flatten, List.map_map]
          exact congrArg _ (List.map_congr_left fun l hl => filter_joined (h.isWord l hl))
      _ = (words cs).flatten := by
          rw [← List.flatten_flatten, hlines, flatten_flatten_of_placed hparts]
      _ = inked cs := flatten_words cs
  · exact ⟨parts, hparts, hwords⟩
  · intro word hm hfits
    exact List.mem_flatMap.mp (hwords ▸ mem_flatten_of_placed hparts hm hfits)

end

theorem exists_layout_words (hm : m.Additive) (hspace : m.columns ' ' = 1) {cs : Text}
    (hw : 0 < w) (hcut : ∀ word ∈ words cs, CutsToFit m w word) :
    ∃ lines, wrap? m w cs = some (lines.map joined) ∧ Layout m w [] (words cs) lines := by
  have hnil : ∀ word ∈ ([] : List Text), IsWord word := fun word h => by cases h
  have hempty : m.width (joined []) = 0 := hm.width_nil
  obtain ⟨lines, hl, hlay⟩ :=
    exists_layout hm hspace (fun _ => isWord_of_mem_words) hcut hnil (by omega)
  rw [hempty] at hl
  exact ⟨lines, (if_neg (by omega)).trans hl, hlay⟩

/-- By an additive measure, with no character wider than in East Asian context and a space of one
column, a text of characters that fit on a line is wrapped into lines that fit. -/
theorem wrap?_wrapped (hm : m.Additive) (he : m.EastAsianWider) (hspace : m.columns ' ' = 1)
    {cs : Text} (hw : 0 < w) (hfit : ∀ c ∈ cs, m.columnsEastAsian c ≤ w) :
    ∃ lines, wrap? m w cs = some lines ∧ Wrapped m w cs lines := by
  have hcut := cutsToFit_of_cuttable hm he (cuttable_of_forall hfit)
  obtain ⟨lines, hl, hlay⟩ := exists_layout_words hm hspace hw hcut
  exact ⟨lines.map joined, hl, hlay.wrapped⟩

/-- A mark takes no column, a root one, but two where a word is cut. -/
theorem wrap?_wrapped_of_mixed_words :
    let m := Measure.byCharacter
    let cs := "e\u0301 a √√√√ b √界√√界a c".toList
    let lines := ["e\u0301 a", "√√√√", "b", "√界", "√√", "界a", "c"].map String.toList
    m.Additive ∧ m.EastAsianWider ∧ m.columns ' ' = 1 ∧ 0 < 4 ∧
      (∀ c ∈ cs, m.columnsEastAsian c ≤ 4) ∧ wrap? m 4 cs = some lines ∧ Wrapped m 4 cs lines := by
  intro m cs lines
  have hall : cs.all (m.columnsEastAsian · ≤ 4) = true := by decide +kernel
  have hfit : ∀ c ∈ cs, m.columnsEastAsian c ≤ 4 :=
    fun c hc => of_decide_eq_true (List.all_eq_true.mp hall c hc)
  have hrun : wrap? m 4 cs = some lines := by decide +kernel
  have hspace : m.columns ' ' = 1 := Measure.plainNarrow_byCharacter.columns_space
  obtain ⟨lines', hl, hwrapped⟩ := wrap?_wrapped Measure.additive_byCharacter
    Measure.eastAsianWider_byCharacter hspace (by decide) hfit
  cases hl.symm.trans hrun
  exact ⟨Measure.additive_byCharacter, Measure.eastAsianWider_byCharacter, hspace, by decide, hfit,
    hrun, hwrapped⟩

end Calculator.Text
