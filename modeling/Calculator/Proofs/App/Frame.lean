import Calculator.App.Reachable
import Calculator.Proofs.App.Presses
import Calculator.Proofs.FrontEnds
import Calculator.Proofs.Screen.Drawing

/-!
# What actions leave alone

The user presses keys and turns the wheel. `ActionFrame` says for one such action what it leaves
alone, and it holds of every action of every run. Hence nothing but the help screen changes while
that is shown, whatever is pressed; and since a help screen that is closed is left at its top
(`HelpAtTop`), closing it gives back the very state in which it was opened.
-/

namespace Calculator

inductive Action where
  | press (clock : Clock) (p : Press)
  | scroll (delta : Int)

def Action.IsEnter : Action → Prop
  | press _ p => p.key = .enter
  | scroll _ => False

namespace App

variable {clock : Clock} {a b : App} {action : Action} {actions : List Action}

def act (a : App) : Action → App
  | .press clock p => a.press clock p
  | .scroll delta => a.scrollBy delta

def after (a : App) (actions : List Action) : App := actions.foldl act a

/-- The help screen is shown when each of the actions is made. -/
def HelpThroughout (a : App) : List Action → Prop
  | [] => True
  | action :: actions => a.helpOpen = true ∧ HelpThroughout (a.act action) actions

def decideHelpThroughout (a : App) : (actions : List Action) → Decidable (a.HelpThroughout actions)
  | [] => isTrue trivial
  | action :: actions =>
    have := decideHelpThroughout (a.act action) actions
    inferInstanceAs (Decidable (_ ∧ _))

instance : Decidable (a.HelpThroughout actions) := decideHelpThroughout a actions

theorem after_concat (a : App) (actions : List Action) (action : Action) :
    a.after (actions ++ [action]) = (a.after actions).act action :=
  List.foldl_append

theorem Reachable.act (h : a.Reachable) (action : Action) : (a.act action).Reachable := by
  cases action with
  | press clock p => exact h.press clock p
  | scroll delta => exact h.scroll delta

theorem Reachable.after (h : a.Reachable) (actions : List Action) :
    (a.after actions).Reachable := by
  induction actions generalizing a with
  | nil => exact h
  | cons action actions ih => exact ih (h.act action)

/-! ## One action -/

/-- What an action leaves alone. -/
structure ActionFrame (a : App) (action : Action) (b : App) : Prop where
  /-- While the help screen is shown, only that changes. -/
  help : a.helpOpen = true → OnlyHelp a b
  /-- The history changes only at Enter, and not while the help screen is shown. -/
  history : b.history ≠ a.history → a.helpOpen = false ∧ action.IsEnter
  /-- Enter on a blank input changes nothing. -/
  blank : action.IsEnter → Text.trim a.input = [] → b = a
  /-- A scroll moves what is shown. -/
  scroll : ∀ delta, action = .scroll delta →
    b = if a.helpOpen then { a with helpScroll := shifted a.helpScroll delta }
      else { a with listScroll := shifted a.listScroll delta }
  /-- What has quit does not come back. -/
  quit : a.quit = true → b.quit = true

theorem quit_submit (h : a.quit = true) : (a.submit clock).quit = true := by
  by_cases hblank : Text.trim a.input = []
  · rw [submit_of_blank hblank, h]
  · rw [submit_of_not_blank hblank]
    exact (quit_obey _ _ _).trans (Bool.or_eq_true_iff.mpr (.inl h))

theorem Pressed.quits {p : Press} (h : Pressed clock a p b) (hquit : a.quit = true) :
    b.quit = true := by
  cases h with
  | inHelp _ hb => exact hb.quit.trans hquit
  | edited _ hb => exact hb.quit.trans hquit
  | submitted => exact quit_submit hquit
  | quit => rfl
  | opened => exact hquit

theorem press_enter_of_blank {p : Press} (hkey : p.key = .enter) (h : Text.trim a.input = []) :
    a.press clock p = a := by
  cases hhelp : a.helpOpen with
  | true =>
    unfold press
    rw [hhelp, hkey]
    rfl
  | false => rw [press_enter hhelp hkey, submit_of_blank h]

theorem actionFrame_press (clock : Clock) (a : App) (p : Press) :
    ActionFrame a (.press clock p) (a.press clock p) where
  help := (pressed_press clock a p).onlyHelp
  history hne := by
    rcases (pressed_press clock a p).history with hsame | ⟨hclosed, hkey, -⟩
    · exact absurd hsame hne
    · exact ⟨hclosed, hkey⟩
  blank hkey hblank := press_enter_of_blank hkey hblank
  scroll _ h := by cases h
  quit := (pressed_press clock a p).quits

theorem actionFrame_scroll (a : App) (delta : Int) :
    ActionFrame a (.scroll delta) (a.scrollBy delta) where
  help hopen := by rw [scrollBy_of_helpOpen hopen]; rfl
  history hne := absurd (a.history_scrollBy delta) hne
  blank h := h.elim
  scroll _ h := by cases h; rfl
  quit hquit := by
    unfold scrollBy
    split <;> exact hquit

theorem actionFrame_act (a : App) (action : Action) : ActionFrame a action (a.act action) := by
  cases action with
  | press clock p => exact actionFrame_press clock a p
  | scroll delta => exact actionFrame_scroll a delta

/-! ## A closed help screen -/

theorem HelpAtTop.obey (h : a.HelpAtTop) (command : Command) :
    (a.obey clock command).HelpAtTop := by
  cases command with
  | help => exact helpAtTop_of_open rfl
  | _ => exact h

theorem HelpAtTop.submit (h : a.HelpAtTop) : (a.submit clock).HelpAtTop := by
  by_cases hblank : Text.trim a.input = []
  · rwa [submit_of_blank hblank]
  · rw [submit_of_not_blank hblank]
    exact HelpAtTop.obey (a := { a with status := none }) h _

theorem HelpAtTop.press (h : a.HelpAtTop) (p : Press) : (a.press clock p).HelpAtTop := by
  have hp := pressed_press clock a p
  generalize a.press clock p = b at hp ⊢
  cases hp with
  | inHelp _ _ htop => exact htop
  | edited _ hb => exact fun hclosed => hb.helpScroll.trans (h (hb.helpOpen ▸ hclosed))
  | submitted => exact h.submit
  | quit => exact h
  | opened => exact helpAtTop_of_open rfl

theorem HelpAtTop.scrollBy (h : a.HelpAtTop) (delta : Int) : (a.scrollBy delta).HelpAtTop := by
  unfold App.scrollBy
  split
  · exact helpAtTop_of_open ‹_›
  · exact h

theorem HelpAtTop.draw (h : a.HelpAtTop) {m : Measure} {t : Toolkit} {w n : Nat} {screen : Screen}
    (hd : a.draw? m t w n = some (b, screen)) : b.HelpAtTop := by
  rw [draw?_keeps hd]
  exact h

theorem Reachable.helpAtTop (h : a.Reachable) : a.HelpAtTop := by
  induction h with
  | new => exact fun _ => rfl
  | step _ hs ih =>
    cases hs with
    | press clock p => exact ih.press p
    | scroll delta => exact ih.scrollBy delta
    | draw drawn => exact ih.draw drawn

/-! ## Runs -/

theorem HelpThroughout.onlyHelp (h : a.HelpThroughout actions) : OnlyHelp a (a.after actions) := by
  induction actions generalizing a with
  | nil => exact .refl a
  | cons action actions ih => exact ((actionFrame_act a action).help h.1).trans (ih h.2)

theorem quit_after (h : a.quit = true) (actions : List Action) : (a.after actions).quit = true := by
  induction actions generalizing a with
  | nil => exact h
  | cons action actions ih => exact ih ((actionFrame_act a action).quit h)

theorem history_after (h : ∀ action ∈ actions, ¬ action.IsEnter) (a : App) :
    (a.after actions).history = a.history := by
  induction actions generalizing a with
  | nil => rfl
  | cons action actions ih =>
    obtain ⟨haction, hactions⟩ := List.forall_mem_cons.mp h
    have hstep : (a.act action).history = a.history :=
      Classical.byContradiction fun hne => haction ((actionFrame_act a action).history hne).2
    exact (ih hactions (a.act action)).trans hstep

/-- Once the help screen is closed, all else is as it was when the run began. -/
theorem HelpThroughout.closed (hr : a.Reachable) (h : a.HelpThroughout actions)
    (hclosed : (a.after actions).helpOpen = false) :
    a.after actions = { a with helpOpen := false, helpScroll := 0 } := by
  have hsame := h.onlyHelp
  unfold OnlyHelp at hsame
  rw [hclosed, (hr.after actions).helpAtTop hclosed] at hsame
  exact hsame

/-! ## Opening and closing the help screen -/

theorem press_function_one {p : Press} (hclosed : a.helpOpen = false) (hkey : p.key = .function 1) :
    a.press clock p = a.openHelp := by
  unfold press
  rw [hclosed, hkey]
  cases p.ctrl <;> rfl

theorem press_of_help_command {p : Press} (hclosed : a.helpOpen = false) (hkey : p.key = .enter)
    (hline : Command.ofLine (Text.trim a.input) = .help) :
    a.press clock p = (clearInput { a with status := none }).openHelp := by
  rw [press_enter hclosed hkey, submit_of_command hline (by decide)]
  rfl

/-- Once the help screen is closed, the state in which it was opened is back. -/
theorem HelpThroughout.reopened {c : App} (hr : a.Reachable) (hclosed : c.helpOpen = false)
    (htop : c.helpScroll = 0) (hopened : a = c.openHelp) (h : a.HelpThroughout actions)
    (hend : (a.after actions).helpOpen = false) : a.after actions = c := by
  rw [h.closed hr hend, hopened, ← hclosed, ← htop]
  rfl

/-- In any run, each action leaves alone what `ActionFrame` says. So while the help screen is shown
nothing else changes, closing it gives back the state in which it was opened, by its key or by the
command, without an Enter the history stays, and what has quit has quit for good. -/
theorem frame_of_run (hr : a.Reachable) (actions : List Action) :
    (∀ before action behind, actions = before ++ action :: behind →
      ActionFrame (a.after before) action (a.after (before ++ [action]))) ∧
    (a.HelpThroughout actions → OnlyHelp a (a.after actions) ∧
      ((a.after actions).helpOpen = false →
        a.after actions = { a with helpOpen := false, helpScroll := 0 })) ∧
    (∀ clock p, a.helpOpen = false → (a.press clock p).HelpThroughout actions →
      ((a.press clock p).after actions).helpOpen = false →
      (p.key = .function 1 → (a.press clock p).after actions = a) ∧
      (p.key = .enter → Command.ofLine (Text.trim a.input) = .help →
        (a.press clock p).after actions = clearInput { a with status := none })) ∧
    ((∀ action ∈ actions, ¬ action.IsEnter) → (a.after actions).history = a.history) ∧
    (a.quit = true → (a.after actions).quit = true) := by
  refine ⟨fun before action behind _ => ?_, fun hhelp => ⟨hhelp.onlyHelp, hhelp.closed hr⟩,
    fun clock p hclosed hhelp hend => ⟨fun hkey => ?_, fun hkey hline => ?_⟩,
    fun hkeys => history_after hkeys a, fun hquit => quit_after hquit actions⟩
  · rw [after_concat]
    exact actionFrame_act (a.after before) action
  · exact hhelp.reopened (hr.press clock p) hclosed (hr.helpAtTop hclosed)
      (press_function_one hclosed hkey) hend
  · exact hhelp.reopened (hr.press clock p) hclosed (hr.helpAtTop hclosed)
      (press_of_help_command hclosed hkey hline) hend

/-- Help opened in the middle of an edit: it scrolls, and the other keys do nothing. -/
theorem frame_of_run_through_help :
    let clock : Clock := fun id => 10 * id
    let a := afterKeys clock [.char '1', .enter, .char '2', .char '+', .left]
    let press (p : Press) : Action := .press clock p
    let actions := [press { key := .pageDown }, .scroll 3, press { key := .char 'x' },
      press { key := .char 'c', ctrl := true }, press { key := .enter }, press { key := .escape }]
    let b := a.press clock { key := .function 1 }
    a.Reachable ∧ a.helpOpen = false ∧ b.HelpThroughout actions ∧
      (b.after (actions.take 5)).helpScroll = 13 ∧ (b.after (actions.take 5)).helpOpen = true ∧
      b.after actions = a := by
  intro clock a press actions b
  have hreach : a.Reachable := reachable_afterKeys clock _
  have hclosed : a.helpOpen = false := by decide +kernel
  have hhelp : b.HelpThroughout actions := by decide +kernel
  have hend : (b.after actions).helpOpen = false := by decide +kernel
  obtain ⟨-, -, hreopened, -, -⟩ := frame_of_run hreach actions
  exact ⟨hreach, hclosed, hhelp, by decide +kernel, by decide +kernel,
    (hreopened clock { key := .function 1 } hclosed hhelp hend).1 rfl⟩

end App

end Calculator
