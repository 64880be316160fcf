import Calculator.App

/-!
# What a press can do

All that a press can do, said once (`Pressed`): on the help screen it scrolls or closes it, or does
nothing; otherwise it edits the input or moves the selection, carries out the input, quits or opens
the help. What a press leaves alone is read off that.
-/

namespace Calculator.App

/-- Nothing but the help screen is different. -/
def OnlyHelp (a b : App) : Prop := b = { a with helpOpen := b.helpOpen, helpScroll := b.helpScroll }

/-- Nothing but the input, the selection and the status is different. -/
def OnlyEditing (a b : App) : Prop :=
  b = { a with
    input := b.input, cursor := b.cursor, inputScroll := b.inputScroll, selected := b.selected
    status := b.status, toBottom := b.toBottom }

section
variable {a b c : App}

theorem OnlyHelp.refl (a : App) : OnlyHelp a a := rfl

theorem OnlyHelp.trans (hab : OnlyHelp a b) (hbc : OnlyHelp b c) : OnlyHelp a c := by
  unfold OnlyHelp at hab hbc ⊢
  rw [hbc, hab]

theorem OnlyHelp.history (h : OnlyHelp a b) : b.history = a.history := by
  unfold OnlyHelp at h
  rw [h]

theorem OnlyHelp.quit (h : OnlyHelp a b) : b.quit = a.quit := by
  unfold OnlyHelp at h
  rw [h]

theorem OnlyEditing.history (h : OnlyEditing a b) : b.history = a.history := by
  unfold OnlyEditing at h
  rw [h]

theorem OnlyEditing.quit (h : OnlyEditing a b) : b.quit = a.quit := by
  unfold OnlyEditing at h
  rw [h]

theorem OnlyEditing.helpOpen (h : OnlyEditing a b) : b.helpOpen = a.helpOpen := by
  unfold OnlyEditing at h
  rw [h]

theorem OnlyEditing.helpScroll (h : OnlyEditing a b) : b.helpScroll = a.helpScroll := by
  unfold OnlyEditing at h
  rw [h]

end

/-- A help screen that is not shown is at its top. -/
def HelpAtTop (a : App) : Prop := a.helpOpen = false → a.helpScroll = 0

theorem helpAtTop_of_open {a : App} (h : a.helpOpen = true) : a.HelpAtTop :=
  fun hclosed => by cases h.symm.trans hclosed

/-- What a press can lead to. -/
inductive Pressed (clock : Clock) (a : App) (p : Press) : App → Prop where
  | inHelp {b : App} (hopen : a.helpOpen = true) (hb : OnlyHelp a b) (htop : b.HelpAtTop) :
    Pressed clock a p b
  | edited {b : App} (hclosed : a.helpOpen = false) (hb : OnlyEditing a b) : Pressed clock a p b
  | submitted (hclosed : a.helpOpen = false) (hkey : p.key = .enter) :
    Pressed clock a p (a.submit clock)
  | quit (hclosed : a.helpOpen = false) : Pressed clock a p { a with quit := true }
  | opened (hclosed : a.helpOpen = false) : Pressed clock a p a.openHelp

variable {clock : Clock} {a b : App} {p : Press}

/-! ## On the help screen -/

theorem scrollBy_of_helpOpen (hopen : a.helpOpen = true) (delta : Int) :
    a.scrollBy delta = { a with helpScroll := shifted a.helpScroll delta } :=
  if_pos hopen

theorem pressed_of_scrollBy (hopen : a.helpOpen = true) (delta : Int) :
    Pressed clock a p (a.scrollBy delta) := by
  rw [scrollBy_of_helpOpen hopen]
  exact .inHelp hopen rfl (helpAtTop_of_open hopen)

theorem pressed_of_idle (hopen : a.helpOpen = true) : Pressed clock a p a :=
  .inHelp hopen (.refl a) (helpAtTop_of_open hopen)

theorem pressed_pressInHelp (hopen : a.helpOpen = true) (p : Press) (key : Key) :
    Pressed clock a p (a.pressInHelp key) := by
  cases key with
  | up => exact pressed_of_scrollBy hopen _
  | down => exact pressed_of_scrollBy hopen _
  | pageUp => exact pressed_of_scrollBy hopen _
  | pageDown => exact pressed_of_scrollBy hopen _
  | escape => exact .inHelp hopen rfl fun _ => rfl
  | function n =>
    rcases n with _ | _ | n
    · exact pressed_of_idle hopen
    · exact .inHelp hopen rfl fun _ => rfl
    · exact pressed_of_idle hopen
  | _ => exact pressed_of_idle hopen

/-! ## Elsewhere -/

theorem onlyEditing_deleteBackward (a : App) : OnlyEditing a a.deleteBackward := by
  unfold deleteBackward
  split <;> rfl

theorem onlyEditing_moveCursor (a : App) (direction : Int) :
    OnlyEditing a (a.moveCursor direction) := by
  unfold moveCursor
  split
  · rfl
  · split <;> rfl

theorem pressed_pressPlain (hclosed : a.helpOpen = false) (p : Press) :
    Pressed clock a p (a.pressPlain clock p.key) := by
  cases hkey : p.key with
  | enter => exact .submitted hclosed hkey
  | backspace => exact .edited hclosed a.onlyEditing_deleteBackward
  | left => exact .edited hclosed (a.onlyEditing_moveCursor (-1))
  | right => exact .edited hclosed (a.onlyEditing_moveCursor 1)
  | function n =>
    rcases n with _ | _ | n
    · exact .edited hclosed rfl
    · exact .opened hclosed
    · exact .edited hclosed rfl
  | _ => exact .edited hclosed rfl

theorem pressed_pressCtrlChar (hclosed : a.helpOpen = false) (c : Char) :
    Pressed clock a p (a.pressCtrlChar c) := by
  unfold pressCtrlChar
  split
  · exact .quit hclosed
  · split <;> exact .edited hclosed rfl

theorem pressed_pressCtrl? (hclosed : a.helpOpen = false) {key : Key}
    (hb : a.pressCtrl? key = some b) : Pressed clock a p b := by
  cases key with
  | char c => cases hb; exact pressed_pressCtrlChar hclosed c
  | left => cases hb; exact .edited hclosed rfl
  | right => cases hb; exact .edited hclosed rfl
  | _ => cases hb

theorem pressed_press (clock : Clock) (a : App) (p : Press) :
    Pressed clock a p (a.press clock p) := by
  unfold press
  split
  · exact pressed_pressInHelp ‹_› p p.key
  · rename_i hopen
    have hclosed : a.helpOpen = false := Bool.eq_false_iff.mpr hopen
    split
    · cases hb : a.pressCtrl? p.key with
      | none => exact pressed_pressPlain hclosed p
      | some b => exact pressed_pressCtrl? hclosed hb
    · exact pressed_pressPlain hclosed p

/-! ## What is left alone -/

theorem history_scrollBy (a : App) (delta : Int) : (a.scrollBy delta).history = a.history := by
  unfold scrollBy
  split <;> rfl

/-- Only Enter changes the history, and only by carrying out the input. -/
theorem Pressed.history (h : Pressed clock a p b) :
    b.history = a.history ∨ a.helpOpen = false ∧ p.key = .enter ∧ b = a.submit clock := by
  cases h with
  | inHelp _ hb => exact .inl hb.history
  | edited _ hb => exact .inl hb.history
  | submitted hclosed hkey => exact .inr ⟨hclosed, hkey, rfl⟩
  | quit => exact .inl rfl
  | opened => exact .inl rfl

theorem Pressed.onlyHelp (h : Pressed clock a p b) (hopen : a.helpOpen = true) : OnlyHelp a b := by
  cases h with
  | inHelp _ hb => exact hb
  | edited hclosed | submitted hclosed | quit hclosed | opened hclosed =>
    cases hopen.symm.trans hclosed

/-! ## Enter -/

theorem press_enter (hclosed : a.helpOpen = false) (hkey : p.key = .enter) :
    a.press clock p = a.submit clock := by
  unfold press
  rw [hclosed, hkey]
  cases p.ctrl <;> rfl

theorem submit_of_blank (h : Text.trim a.input = []) : a.submit clock = a := by
  simp only [submit, h]

theorem submit_of_not_blank (h : Text.trim a.input ≠ []) :
    a.submit clock = obey clock { a with status := none } (Command.ofLine (Text.trim a.input)) := by
  unfold submit
  split
  · exact absurd ‹_› h
  · rfl

theorem submit_of_command {command : Command} (h : Command.ofLine (Text.trim a.input) = command)
    (hc : command ≠ .invalid .missingExpression) :
    a.submit clock = obey clock { a with status := none } command := by
  have hempty : Command.ofLine [] = .invalid .missingExpression := by decide +kernel
  have hne : Text.trim a.input ≠ [] := fun hnil => hc (by rw [← h, hnil, hempty])
  rw [submit_of_not_blank hne, h]

end Calculator.App
