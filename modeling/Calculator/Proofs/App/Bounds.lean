import Calculator.App.Reachable
import Calculator.Proofs.App.Checked
import Calculator.Proofs.Screen.Drawing
import Calculator.Screen.Grid

/-!
# The cursor and the selection stay in range

In a state that can occur the cursor stands within the input, and an entry is selected
unless there is none. So nothing that a press or a drawing looks up is missing.
-/

namespace Calculator

namespace App

/-- Cursor and selection in range, and every entry with something to recall. -/
structure Bounded (a : App) : Prop where
  cursor_le : a.cursor ≤ a.input.length
  selected_le : a.selected ≤ a.history.size - 1
  expression_ne_nil : ∀ entry ∈ a.history.entries, entry.expression ≠ []

variable {clock : Clock} {m : Measure} {t : Toolkit} {a b : App}

theorem bounded_new : Bounded {} := ⟨Nat.le_refl 0, Nat.le_refl 0, nofun⟩

/-- What leaves history and selection alone has only the cursor to keep in range. -/
theorem Bounded.of_cursor_le (h : a.Bounded) (hcursor : b.cursor ≤ b.input.length)
    (hselected : b.selected = a.selected) (hhistory : b.history = a.history) : b.Bounded where
  cursor_le := hcursor
  selected_le := by
    rw [hselected, hhistory]
    exact h.selected_le
  expression_ne_nil := by
    rw [hhistory]
    exact h.expression_ne_nil

theorem Bounded.selected_lt_or (h : a.Bounded) :
    a.selected < a.history.size ∨ a.history.size = 0 ∧ a.selected = 0 := by
  have := h.selected_le
  omega

theorem Bounded.selected_lt (h : a.Bounded) (hentries : a.history.isEmpty = false) :
    a.selected < a.history.size := by
  rcases h.selected_lt_or with hlt | ⟨hsize, -⟩
  · exact hlt
  · rw [History.isEmpty, List.eq_nil_of_length_eq_zero hsize] at hentries
    cases hentries

/-! ## Editing -/

theorem Bounded.insert (h : a.Bounded) (c : Char) : (a.insert c).Bounded := by
  refine h.of_cursor_le ?_ rfl rfl
  have hc := h.cursor_le
  show a.cursor + 1 ≤ (Text.insertAt a.cursor c a.input).length
  rw [Text.insertAt, List.length_append, List.length_take, List.length_cons, List.length_drop]
  omega

theorem Bounded.deleteForward (h : a.Bounded) : a.deleteForward.Bounded := by
  refine h.of_cursor_le ?_ rfl rfl
  have hc := h.cursor_le
  show a.cursor ≤ (a.input.eraseIdx a.cursor).length
  rw [List.length_eraseIdx]
  split <;> omega

theorem Bounded.deleteBackward (h : a.Bounded) : a.deleteBackward.Bounded := by
  unfold App.deleteBackward
  split
  · exact h
  · have hc : a.cursor - 1 ≤ a.input.length := Nat.le_trans (Nat.sub_le _ _) h.cursor_le
    have hback : Bounded { a with cursor := a.cursor - 1 } := h.of_cursor_le hc rfl rfl
    exact hback.deleteForward

theorem Bounded.moveCursor (h : a.Bounded) (direction : Int) :
    (a.moveCursor direction).Bounded := by
  unfold App.moveCursor
  split
  · exact h.of_cursor_le (Nat.le_trans (Nat.sub_le _ _) h.cursor_le) rfl rfl
  · split
    · exact h.of_cursor_le (Nat.min_le_right _ _) rfl rfl
    · exact h

theorem Bounded.moveByWord (h : a.Bounded) (direction : Int) :
    (a.moveByWord direction).Bounded := by
  refine h.of_cursor_le ?_ rfl rfl
  unfold App.moveByWord
  dsimp only
  split
  · exact Nat.le_trans (wordLeft?_eq h.cursor_le).2 h.cursor_le
  · exact (wordRight?_eq h.cursor_le).2

theorem Bounded.clearInput (h : a.Bounded) : a.clearInput.Bounded :=
  h.of_cursor_le (Nat.zero_le _) rfl rfl

/-! ## Selecting -/

def recallEntry (a : App) (i : Nat) : App :=
  { loadSelected { a with selected := i } with toBottom := false }

theorem Bounded.exists_navigate_eq (h : a.Bounded) (direction : Int) :
    ∃ i ≤ a.history.size - 1, a.navigate direction = a.recallEntry i := by
  have hs := h.selected_le
  refine ⟨_, ?_, rfl⟩
  split
  · omega
  · split <;> omega

theorem Bounded.exists_page_eq (h : a.Bounded) (direction : Int) :
    ∃ i ≤ a.history.size - 1, a.page direction = a.recallEntry i := by
  have hs := h.selected_le
  refine ⟨_, ?_, rfl⟩
  split <;> omega

/-- A recall puts the cursor behind what it recalls, wherever it was. -/
theorem Bounded.recallEntry (h : a.Bounded) {i : Nat} (hi : i ≤ a.history.size - 1) :
    (a.recallEntry i).Bounded :=
  ⟨Nat.le_refl _, hi, h.expression_ne_nil⟩

theorem Bounded.navigate (h : a.Bounded) (direction : Int) : (a.navigate direction).Bounded := by
  obtain ⟨i, hi, he⟩ := h.exists_navigate_eq direction
  exact he ▸ h.recallEntry hi

theorem Bounded.page (h : a.Bounded) (direction : Int) : (a.page direction).Bounded := by
  obtain ⟨i, hi, he⟩ := h.exists_page_eq direction
  exact he ▸ h.recallEntry hi

theorem Bounded.recallEntry_finds (h : a.Bounded) {i : Nat} (hi : i ≤ a.history.size - 1) :
    (∃ entry, (a.recallEntry i).history.entries[(a.recallEntry i).selected]? = some entry ∧
      (a.recallEntry i).input = entry.expression ∧ (a.recallEntry i).input ≠ []) ∨
    (a.history.isEmpty = true ∧ (a.recallEntry i).input = []) := by
  rcases (h.recallEntry hi).selected_lt_or with hlt | ⟨hsize, -⟩
  · obtain ⟨entry, hget⟩ : ∃ entry, a.history.entries[i]? = some entry :=
      ⟨_, List.getElem?_eq_getElem hlt⟩
    have hinput : (a.recallEntry i).input = entry.expression :=
      congrArg (Option.elim · [] Entry.expression) hget
    refine .inl ⟨entry, hget, hinput, ?_⟩
    rw [hinput]
    exact h.expression_ne_nil entry (List.mem_of_getElem? hget)
  · have hnil : a.history.entries = [] := List.eq_nil_of_length_eq_zero hsize
    refine .inr ⟨List.isEmpty_iff.mpr hnil, ?_⟩
    show ((a.history.entries[i]?).elim [] Entry.expression) = []
    rw [hnil]
    rfl

/-! ## Commands -/

theorem Bounded.obey (h : a.Bounded) {command : Command}
    (hc : ∀ e d, command = .evaluate e d → e ≠ []) : (a.obey clock command).Bounded := by
  cases command with
  | quit => exact h.of_cursor_le h.cursor_le rfl rfl
  | clear => exact ⟨Nat.le_refl 0, Nat.le_refl 0, nofun⟩
  | help => exact h.of_cursor_le (Nat.le_refl 0) rfl rfl
  | history => exact h.of_cursor_le (Nat.le_refl 0) rfl rfl
  | invalid e => exact h.of_cursor_le (Nat.le_refl 0) rfl rfl
  | delete id =>
    refine ⟨Nat.le_refl 0, Nat.min_le_right _ _, fun entry he => ?_⟩
    exact h.expression_ne_nil entry (List.mem_of_mem_eraseP he)
  | evaluate expression detailed =>
    refine ⟨Nat.le_refl 0, Nat.le_refl _, fun entry he => ?_⟩
    rcases List.mem_append.mp he with he | he
    · exact h.expression_ne_nil entry he
    · rw [List.mem_singleton.mp he]
      exact hc expression detailed rfl

theorem Bounded.submit (h : a.Bounded) : (a.submit clock).Bounded := by
  unfold App.submit
  split
  · exact h
  · refine Bounded.obey (a := { a with status := none }) ?_ fun _ _ => Command.expression_ne_nil
    exact h.of_cursor_le h.cursor_le rfl rfl

/-! ## One step -/

theorem Bounded.scrollBy (h : a.Bounded) (delta : Int) : (a.scrollBy delta).Bounded := by
  unfold App.scrollBy
  split <;> exact h.of_cursor_le h.cursor_le rfl rfl

theorem Bounded.pressInHelp (h : a.Bounded) (key : Key) : (a.pressInHelp key).Bounded := by
  cases key with
  | up => exact h.scrollBy _
  | down => exact h.scrollBy _
  | pageUp => exact h.scrollBy _
  | pageDown => exact h.scrollBy _
  | escape => exact h.of_cursor_le h.cursor_le rfl rfl
  | function n =>
    rcases n with _ | _ | n
    · exact h
    · exact h.of_cursor_le h.cursor_le rfl rfl
    · exact h
  | _ => exact h

theorem Bounded.pressPlain (h : a.Bounded) (key : Key) : (a.pressPlain clock key).Bounded := by
  cases key with
  | char c => exact h.insert c
  | backspace => exact h.deleteBackward
  | delete => exact h.deleteForward
  | left => exact h.moveCursor (-1)
  | right => exact h.moveCursor 1
  | lineStart => exact h.of_cursor_le (Nat.zero_le _) rfl rfl
  | lineEnd => exact h.of_cursor_le (Nat.le_refl _) rfl rfl
  | up => exact h.navigate (-1)
  | down => exact h.navigate 1
  | pageUp => exact h.page (-1)
  | pageDown => exact h.page 1
  | enter => exact h.submit
  | function n =>
    rcases n with _ | _ | n
    · exact h
    · exact h.of_cursor_le h.cursor_le rfl rfl
    · exact h
  | escape => exact h.of_cursor_le h.cursor_le rfl rfl
  | _ => exact h

theorem Bounded.pressCtrlChar (h : a.Bounded) (c : Char) : (a.pressCtrlChar c).Bounded := by
  unfold App.pressCtrlChar
  split
  · exact h.of_cursor_le h.cursor_le rfl rfl
  · split
    · exact h.clearInput
    · exact h

theorem Bounded.pressCtrl? (h : a.Bounded) {key : Key} (hb : a.pressCtrl? key = some b) :
    b.Bounded := by
  cases key with
  | char c => cases hb; exact h.pressCtrlChar c
  | left => cases hb; exact h.moveByWord (-1)
  | right => cases hb; exact h.moveByWord 1
  | _ => cases hb

theorem Bounded.press (h : a.Bounded) (p : Press) : (a.press clock p).Bounded := by
  unfold App.press
  split
  · exact h.pressInHelp _
  · split
    · cases hb : a.pressCtrl? p.key with
      | none => exact h.pressPlain _
      | some b => exact h.pressCtrl? hb
    · exact h.pressPlain _

theorem Bounded.draw (h : a.Bounded) {w n : Nat} {screen : Screen}
    (hd : a.draw? m t w n = some (b, screen)) : b.Bounded := by
  rw [draw?_keeps hd]
  exact h.of_cursor_le h.cursor_le rfl rfl

theorem Bounded.exists_start (h : a.Bounded) {w n : Nat} {screen : Screen}
    (hd : a.draw? m t w n = some (b, screen)) (hhelp : a.helpOpen = false)
    (hentries : a.history.isEmpty = false) : ∃ row, b.starts[b.selected]? = some row := by
  have hlength : b.starts.length = a.history.size := length_starts_of_draw? hd hhelp hentries
  have hsame : b.selected = a.selected := by rw [draw?_keeps hd]
  refine ⟨_, List.getElem?_eq_getElem ?_⟩
  rw [hlength, hsame]
  exact h.selected_lt hentries

theorem Bounded.step (h : a.Bounded) (hs : Step a b) : b.Bounded := by
  cases hs with
  | press clock p => exact h.press p
  | scroll delta => exact h.scrollBy delta
  | draw drawn => exact h.draw drawn

/-! ## Any run -/

theorem Reachable.bounded (h : a.Reachable) : a.Bounded := by
  induction h with
  | new => exact bounded_new
  | step _ hs ih => exact ih.step hs

/-- In every state that can occur, after drawings of any size too, the cursor is at most at
the end of the input and the selected entry exists unless there is none. So each press and
each scroll of the input is what its checked form says, a move of the selection recalls an
entry and empties the input only where there is none to recall, and a drawing finds the
row of the selected entry. -/
theorem bounds_of_reachable (h : a.Reachable) :
    a.cursor ≤ a.input.length ∧
    (a.selected < a.history.size ∨ a.history.size = 0 ∧ a.selected = 0) ∧
    (∀ clock p, a.press? clock p = some (a.press clock p)) ∧
    (∀ w, a.fitInput? w = some (a.fitInput w)) ∧
    (∀ direction b, b = a.navigate direction ∨ b = a.page direction →
      (∃ entry, b.history.entries[b.selected]? = some entry ∧
        b.input = entry.expression ∧ b.input ≠ []) ∨
      (a.history.isEmpty = true ∧ b.input = [])) ∧
    (∀ m t w n b screen, a.draw? m t w n = some (b, screen) →
      a.helpOpen = false → a.history.isEmpty = false →
        ∃ row, b.starts[b.selected]? = some row) := by
  have hbounded := h.bounded
  refine ⟨hbounded.cursor_le, hbounded.selected_lt_or, press?_eq hbounded.cursor_le,
    a.fitInput?_eq, ?_, ?_⟩
  · intro direction b hb
    obtain ⟨i, hi, rfl⟩ : ∃ i ≤ a.history.size - 1, b = a.recallEntry i := by
      rcases hb with rfl | rfl
      · exact hbounded.exists_navigate_eq direction
      · exact hbounded.exists_page_eq direction
    exact hbounded.recallEntry_finds hi
  · intro m t w n b screen hd hhelp hentries
    exact hbounded.exists_start hd hhelp hentries

/-- A calculation recalled: the cursor stands behind it, a word to the left is within reach,
and a drawing finds its row. -/
theorem bounds_after_recall :
    let keys : List Key := [.char '7', .enter, .char '√', .up]
    let clock : Clock := fun id => 10 * id
    let a := keys.foldl (fun a key => a.press clock { key }) ({} : App)
    a.Reachable ∧ a.cursor = 1 ∧ a.cursor ≤ a.input.length ∧ a.selected < a.history.size ∧
      a.press? clock { key := .left, ctrl := true } =
        some (a.press clock { key := .left, ctrl := true }) ∧
      (∃ entry, (a.page 1).history.entries[(a.page 1).selected]? = some entry ∧
        (a.page 1).input = entry.expression) ∧
      ∃ b screen row, a.draw? .byCharacter .grid 40 12 = some (b, screen) ∧
        b.starts[b.selected]? = some row := by
  intro keys clock a
  have hreach : a.Reachable := reachable_afterKeys clock keys
  have hsize : a.history.size = 1 := by decide +kernel
  have hsome : (a.draw? .byCharacter .grid 40 12).isSome = true := by decide +kernel
  have hhelp : a.helpOpen = false := by decide +kernel
  have hentries : a.history.isEmpty = false := by decide +kernel
  have hcursor : a.cursor = 1 := by decide +kernel
  obtain ⟨hc, hs, hpress, -, hrecall, hdraw⟩ := bounds_of_reachable hreach
  refine ⟨hreach, hcursor, hc, ?_, hpress _ _, ?_, ?_⟩
  · rcases hs with hlt | ⟨h0, -⟩
    · exact hlt
    · rw [hsize] at h0
      cases h0
  · rcases hrecall 1 _ (.inr rfl) with ⟨entry, hget, hinput, -⟩ | ⟨hempty, -⟩
    · exact ⟨entry, hget, hinput⟩
    · rw [hentries] at hempty
      cases hempty
  · obtain ⟨⟨b, screen⟩, hd⟩ := Option.isSome_iff_exists.mp hsome
    obtain ⟨row, hrow⟩ := hdraw _ _ 40 12 b screen hd hhelp hentries
    exact ⟨b, screen, row, hd, hrow⟩

end App

end Calculator
