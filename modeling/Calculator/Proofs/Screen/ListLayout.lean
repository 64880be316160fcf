import Calculator.Proofs.Screen.Drawing

/-!
# Where entries stand in the list

Each entry is a block of lines, and the list is all blocks with one separator between each two
(`joined`). The row at which an entry starts is found by counting the lines and separators
before it (`blockStarts`); there the list goes on with the block of this entry. A block is
never empty: its first line starts with the id of the entry.
-/

namespace Calculator.Screen

abbrev Block := List (List Span)

/-- The lines of each entry in `w` columns, the entries counted from `i` on. -/
def blocks? (m : Measure) (w selected i : Nat) (entries : List Entry) : Option (List Block) :=
  (entries.zipIdx i).mapM fun e => entryLines? m e.1 w (e.2 == selected)

/-- The list: all blocks, a separator between each two. -/
def joined (w : Nat) (blocks : List Block) : List (List Span) :=
  [separator w].intercalate blocks

/-- The row at which each block starts, the first at row `n`. -/
def blockStarts (n : Nat) : List Block → List Nat
  | [] => []
  | block :: rest => n :: blockStarts (n + block.length + 1) rest

variable {m : Measure} {w selected i n : Nat} {blocks : List Block} {block : Block}

/-! ## The blocks -/

theorem blocks?_cons (entry : Entry) (entries : List Entry) :
    blocks? m w selected i (entry :: entries) =
      (entryLines? m entry w (i == selected)).bind fun block =>
        (blocks? m w selected (i + 1) entries).map (block :: ·) := by
  rw [blocks?, List.zipIdx_cons, List.mapM_cons]
  cases entryLines? m entry w (i == selected) with
  | none => rfl
  | some block =>
    show (blocks? m w selected (i + 1) entries >>= fun rest => some (block :: rest)) =
      (blocks? m w selected (i + 1) entries).map (block :: ·)
    cases blocks? m w selected (i + 1) entries <;> rfl

theorem getElem?_blocks {entries : List Entry} (h : blocks? m w selected i entries = some blocks)
    (k : Nat) :
    blocks[k]? = entries[k]?.bind fun entry => entryLines? m entry w (i + k == selected) := by
  induction entries generalizing i k blocks with
  | nil => cases h; rfl
  | cons entry entries ih =>
    rw [blocks?_cons, Option.bind_eq_some_iff] at h
    obtain ⟨block, hblock, h⟩ := h
    obtain ⟨rest, hrest, rfl⟩ := Option.map_eq_some_iff.mp h
    cases k with
    | zero => exact hblock.symm
    | succ k =>
      rw [List.getElem?_cons_succ, List.getElem?_cons_succ, ih hrest]
      rw [show i + 1 + k = i + (k + 1) by omega]

/-! ## The list -/

theorem joined_cons (w : Nat) (block : Block) (rest : List Block) :
    joined w (block :: rest) = block ++ rest.flatMap (separator w :: ·) := by
  induction rest generalizing block with
  | nil => simp [joined, List.intercalate]
  | cons next rest ih =>
    rw [List.flatMap_cons, List.cons_append, ← ih]
    simp [joined, List.intercalate]

theorem joined_cons_cons (w : Nat) (block next : Block) (rest : List Block) :
    joined w (block :: next :: rest) = block ++ separator w :: joined w (next :: rest) := by
  rw [joined_cons, joined_cons]
  rfl

/-- Behind the first entry each one has a separator in front. -/
theorem listRows?_succ (m : Measure) (w selected i n : Nat) (entries : List Entry) :
    listRows? m w selected (i + 1) n entries =
      (blocks? m w selected (i + 1) entries).map fun blocks =>
        (blockStarts (n + 1) blocks, blocks.flatMap (separator w :: ·)) := by
  induction entries generalizing i n with
  | nil => rfl
  | cons entry entries ih =>
    rw [listRows?, blocks?_cons]
    cases entryLines? m entry w (i + 1 == selected) with
    | none => rfl
    | some block =>
      show (listRows? m w selected (i + 1 + 1) (n + 1 + block.length) entries >>= _) = _
      rw [ih]
      cases blocks? m w selected (i + 1 + 1) entries <;> rfl

theorem listRows?_eq (m : Measure) (w selected : Nat) (entries : List Entry) :
    listRows? m w selected 0 0 entries =
      (blocks? m w selected 0 entries).map fun blocks =>
        (blockStarts 0 blocks, joined w blocks) := by
  cases entries with
  | nil => rfl
  | cons entry entries =>
    rw [listRows?, blocks?_cons]
    cases entryLines? m entry w (0 == selected) with
    | none => rfl
    | some block =>
      show (listRows? m w selected (0 + 1) (0 + block.length) entries >>= _) = _
      rw [listRows?_succ]
      cases blocks? m w selected (0 + 1) entries with
      | none => rfl
      | some rest =>
        show some (0 :: blockStarts (0 + block.length + 1) rest,
          block ++ rest.flatMap (separator w :: ·)) = _
        rw [← joined_cons]
        rfl

/-! ## The rows at which blocks start -/

theorem length_blockStarts (n : Nat) (blocks : List Block) :
    (blockStarts n blocks).length = blocks.length := by
  induction blocks generalizing n with
  | nil => rfl
  | cons block blocks ih => exact congrArg (· + 1) (ih _)

theorem le_of_mem_blockStarts {row : Nat} (h : row ∈ blockStarts n blocks) : n ≤ row := by
  induction blocks generalizing n with
  | nil => cases h
  | cons block blocks ih =>
    rcases List.mem_cons.mp h with rfl | h
    · exact Nat.le_refl _
    · have := ih h
      omega

theorem pairwise_blockStarts (n : Nat) (blocks : List Block) :
    (blockStarts n blocks).Pairwise (· < ·) := by
  induction blocks generalizing n with
  | nil => exact .nil
  | cons block blocks ih =>
    refine .cons (fun row hrow => ?_) (ih _)
    have := le_of_mem_blockStarts hrow
    omega

/-- The lines of a block and one separator are between its start and the next. -/
theorem blockStarts_succ {k row next : Nat} (hrow : (blockStarts n blocks)[k]? = some row)
    (hnext : (blockStarts n blocks)[k + 1]? = some next) :
    ∃ block, blocks[k]? = some block ∧ next = row + block.length + 1 := by
  induction blocks generalizing n k with
  | nil => cases hrow
  | cons block blocks ih =>
    cases k with
    | succ k => exact ih hrow hnext
    | zero =>
      cases hrow
      refine ⟨block, rfl, ?_⟩
      cases blocks with
      | nil => cases hnext
      | cons block blocks =>
        cases hnext
        rfl

/-- At its start the list goes on with the block, whatever `front` is there before. -/
theorem getElem?_joined_behind {k row j : Nat} (front : List (List Span))
    (hrow : (blockStarts front.length blocks)[k]? = some row) (hblock : blocks[k]? = some block)
    (hj : j < block.length) : (front ++ joined w blocks)[row + j]? = block[j]? := by
  induction blocks generalizing front k with
  | nil => cases hblock
  | cons first blocks ih =>
    cases k with
    | zero =>
      cases hrow
      cases hblock
      rw [joined_cons, List.getElem?_append_right (Nat.le_add_right _ _), Nat.add_sub_cancel_left,
        List.getElem?_append_left hj]
    | succ k =>
      cases blocks with
      | nil => cases hblock
      | cons next blocks =>
        have hlength : (front ++ first ++ [separator w]).length =
            front.length + first.length + 1 := by simp only [List.length_append]; rfl
        have hlist : front ++ joined w (first :: next :: blocks) =
            (front ++ first ++ [separator w]) ++ joined w (next :: blocks) := by
          rw [joined_cons_cons]
          simp
        rw [hlist]
        refine ih _ ?_ hblock
        rw [hlength]
        exact hrow

theorem getElem?_joined {k row j : Nat} (hrow : (blockStarts 0 blocks)[k]? = some row)
    (hblock : blocks[k]? = some block) (hj : j < block.length) :
    (joined w blocks)[row + j]? = block[j]? :=
  getElem?_joined_behind [] hrow hblock hj

/-! ## The first line of a block -/

theorem exists_appendToLast_cons (spans : List Span) (span : Span) (line : List Span)
    (rest : List (List Span)) :
    ∃ line' rest', appendToLast spans ((span :: line) :: rest) = (span :: line') :: rest' := by
  cases rest with
  | nil => exact ⟨_, _, rfl⟩
  | cons next rest => exact ⟨_, _, rfl⟩

theorem exists_labelled_of_entryLines? {entry : Entry} {chosen : Bool}
    (h : entryLines? m entry w chosen = some block) :
    ∃ line rest, block = (⟨Entry.label entry.id ++ [' '], dim⟩ :: line) :: rest := by
  simp only [entryLines?, Option.bind_eq_bind, Option.bind_eq_some_iff] at h
  obtain ⟨head, hhead, h⟩ := h
  simp only [headLines?, Option.bind_eq_bind, Option.bind_eq_some_iff] at hhead
  obtain ⟨chunks, -, hhead⟩ := hhead
  obtain ⟨line, rest, hlabelled⟩ : ∃ line rest,
      head = (⟨Entry.label entry.id ++ [' '], dim⟩ :: line) :: rest := by
    cases hhead
    cases chunks with
    | nil => exact exists_appendToLast_cons _ _ _ _
    | cons chunk chunks =>
      rw [if_neg (List.cons_ne_nil _ _), List.mapIdx_cons]
      exact exists_appendToLast_cons _ _ _ _
  subst hlabelled
  split at h
  · obtain ⟨details, -, h⟩ := Option.bind_eq_some_iff.mp h
    cases h
    exact ⟨line, rest ++ details.flatten, rfl⟩
  · cases h
    exact ⟨line, rest, rfl⟩

theorem length_blocks {entries : List Entry} (h : blocks? m w selected 0 entries = some blocks) :
    blocks.length = entries.length := by
  have hrows : listRows? m w selected 0 0 entries =
      some (blockStarts 0 blocks, joined w blocks) := by
    rw [listRows?_eq, h]
    rfl
  rw [← length_blockStarts 0, length_starts hrows]

/-- Each entry has a row of the list where it starts, with its id in front. -/
theorem exists_start {entries : List Entry} (h : blocks? m w selected 0 entries = some blocks)
    {k : Nat} {entry : Entry} (hentry : entries[k]? = some entry) :
    ∃ row line rest, (blockStarts 0 blocks)[k]? = some row ∧
      entryLines? m entry w (k == selected) =
        some ((⟨Entry.label entry.id ++ [' '], dim⟩ :: line) :: rest) ∧
      (joined w blocks)[row]? = some (⟨Entry.label entry.id ++ [' '], dim⟩ :: line) := by
  have hk : k < blocks.length := by
    rw [length_blocks h]
    exact (List.getElem?_eq_some_iff.mp hentry).1
  have hblock := List.getElem?_eq_getElem hk
  have hrow := List.getElem?_eq_getElem ((length_blockStarts 0 blocks).symm ▸ hk)
  have hlines := getElem?_blocks h k
  rw [hblock, hentry, Nat.zero_add] at hlines
  obtain ⟨line, rest, hfirst⟩ := exists_labelled_of_entryLines? hlines.symm
  rw [hfirst] at hblock hlines
  exact ⟨_, line, rest, hrow, hlines.symm,
    getElem?_joined hrow hblock (Nat.succ_pos rest.length)⟩

end Calculator.Screen
