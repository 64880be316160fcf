import Calculator.App.Reachable
import Calculator.Proofs.App.Presses
import Calculator.Proofs.Console.Listing
import Calculator.Proofs.Screen.Drawing

/-!
# The history of a state that can occur

Of all that can happen only a press of Enter changes the history, and it does so by the command
that the input asks for. So in every state that can occur the history is what some list of
changes leaves of a new one, and its ids are in order.
-/

namespace Calculator.App

variable {a b : App}

theorem exists_changes_submit (clock : Clock) (a : App) :
    ∃ changes, (a.submit clock).history = a.history.after changes := by
  by_cases hblank : Text.trim a.input = []
  · exact ⟨[], congrArg App.history (submit_of_blank hblank)⟩
  · rw [submit_of_not_blank hblank]
    exact ⟨_, (history_obey clock _ _).trans (Console.history_reply clock a.history _)⟩

theorem exists_changes_step (h : Step a b) : ∃ changes, b.history = a.history.after changes := by
  cases h with
  | press clock p =>
    rcases (pressed_press clock a p).history with hsame | ⟨-, -, hsubmit⟩
    · exact ⟨[], hsame⟩
    · exact hsubmit ▸ exists_changes_submit clock a
  | scroll delta => exact ⟨[], a.history_scrollBy delta⟩
  | draw drawn =>
    refine ⟨[], ?_⟩
    rw [draw?_keeps drawn]
    rfl

theorem Reachable.exists_changes (h : a.Reachable) : ∃ changes, a.history = .after {} changes := by
  induction h with
  | new => exact ⟨[], rfl⟩
  | step _ hs ih =>
    obtain ⟨before, hbefore⟩ := ih
    obtain ⟨changes, hchanges⟩ := exists_changes_step hs
    refine ⟨before ++ changes, ?_⟩
    rw [hchanges, hbefore]
    exact List.foldl_append.symm

theorem Reachable.numbered (h : a.Reachable) : a.history.Numbered := by
  obtain ⟨changes, hchanges⟩ := h.exists_changes
  exact hchanges ▸ History.numbered_after History.numbered_new changes

end Calculator.App
