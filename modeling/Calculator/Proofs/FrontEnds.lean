import Calculator.Console.Reply
import Calculator.Proofs.App.Presses

/-!
# Two front ends, one log

The full-screen calculator (`App.obey`) and the console (`Console.reply`) carry out a command
each in its own way: one clears its input, moves the selection and opens the help, the
other writes an answer. What a command does to the history is the same in both, and the
one that quits is the one after which the other does not go on. So the two hold equal
histories after any lines, but for the times where their clocks differ.
-/

namespace Calculator

/-! ## Histories without times -/

namespace History

def untimed (h : History) : History :=
  { h with entries := h.entries.map fun entry => { entry with nanos := 0 } }

theorem untimed_record (h : History) (e : Text) (d : Bool) (nanos : Nat) :
    (h.record e d nanos).untimed = h.untimed.record e d 0 := by
  simp only [untimed, record, List.map_append]
  rfl

theorem untimed_erase (h : History) (id : Nat) : (h.erase id).untimed = h.untimed.erase id := by
  simp only [untimed, erase, List.eraseP_map]
  rfl

end History

namespace Console

/-- The lines that a console carries out: those that are not blank, trimmed. -/
def commandLines (lines : List Text) : List Text :=
  (lines.map Text.trim).filter (· ≠ [])

/-- The history that replies leave, from the one before them. -/
def leftBy (rs : List Reply) (history : History) : History :=
  (rs.map (·.history)).getLastD history

theorem leftBy_cons (r : Reply) (rs : List Reply) (history : History) :
    leftBy (r :: rs) history = leftBy rs r.history :=
  List.getLastD_cons

theorem commandLines_cons_of_blank {line : Text} (h : Text.trim line = []) (lines : List Text) :
    commandLines (line :: lines) = commandLines lines := by
  rw [commandLines, List.map_cons, h]
  rfl

theorem commandLines_cons {line : Text} (h : Text.trim line ≠ []) (lines : List Text) :
    commandLines (line :: lines) = Text.trim line :: commandLines lines := by
  rw [commandLines, List.map_cons, List.filter_cons_of_pos (by simpa using h)]
  rfl

theorem reply_untimed (clock : Clock) (history : History) (command : Command) :
    let r := reply clock history command
    let plain := reply (fun _ => 0) history.untimed command
    r.history.untimed = plain.history ∧ r.goesOn = plain.goesOn := by
  cases command with
  | delete id => exact ⟨history.untimed_erase id, rfl⟩
  | evaluate e d => exact ⟨history.untimed_record e d _, rfl⟩
  | _ => exact ⟨rfl, rfl⟩

/-- Whatever the clock shows, replies leave the same history but for the times, and stop at
the same lines. -/
theorem replies_untimed (clock : Clock) (history : History) (lines : List Text) :
    let rs := replies clock history lines
    let plain := replies (fun _ => 0) history.untimed lines
    (leftBy rs history).untimed = leftBy plain history.untimed ∧
      rs.map (·.goesOn) = plain.map (·.goesOn) := by
  induction lines generalizing history with
  | nil => exact ⟨rfl, rfl⟩
  | cons line lines ih =>
    obtain ⟨hhistory, hgoesOn⟩ := reply_untimed clock history (Command.ofLine line)
    obtain ⟨hleft, hrest⟩ := ih (reply clock history (Command.ofLine line)).history
    simp only [replies, leftBy_cons, List.map_cons]
    rw [hleft, hrest, hhistory, hgoesOn]
    exact ⟨rfl, rfl⟩

end Console

namespace App

open Console

variable (clock : Clock)

/-- Puts a line into the input, wherever the cursor stands, and submits it. -/
def enter (a : App) (line : Text) : App := submit clock { a with input := line }

/-! ## One command -/

theorem history_obey (a : App) (command : Command) :
    (a.obey clock command).history = (reply clock a.history command).history := by
  cases command <;> rfl

theorem quit_obey (a : App) (command : Command) :
    (a.obey clock command).quit = (a.quit || !(reply clock a.history command).goesOn) := by
  cases command with
  | quit => exact (Bool.or_true a.quit).symm
  | _ => exact (Bool.or_false a.quit).symm

/-! ## One line -/

theorem enter_of_blank {line : Text} (h : Text.trim line = []) (a : App) :
    (a.enter clock line).history = a.history ∧ (a.enter clock line).quit = a.quit := by
  have he : a.enter clock line = { a with input := line } := submit_of_blank h
  rw [he]
  exact ⟨rfl, rfl⟩

theorem enter_of_not_blank {line : Text} (h : Text.trim line ≠ []) (a : App) :
    let r := reply clock a.history (Command.ofLine (Text.trim line))
    (a.enter clock line).history = r.history ∧
      (a.enter clock line).quit = (a.quit || !r.goesOn) := by
  have he : a.enter clock line =
      obey clock { a with input := line, status := none } (Command.ofLine (Text.trim line)) :=
    submit_of_not_blank (a := { a with input := line }) h
  rw [he]
  exact ⟨history_obey _ _ _, quit_obey _ _ _⟩

/-! ## Any lines -/

theorem enter_lines (lines : List Text) (a : App) :
    let rs := replies clock a.history (commandLines lines)
    (lines.foldl (enter clock) a).history = leftBy rs a.history ∧
      (lines.foldl (enter clock) a).quit = (a.quit || rs.any (!·.goesOn)) := by
  induction lines generalizing a with
  | nil => exact ⟨rfl, (Bool.or_false _).symm⟩
  | cons line lines ih =>
    obtain ⟨hhistory, hquit⟩ := ih (a.enter clock line)
    by_cases hb : Text.trim line = []
    · obtain ⟨hh, hq⟩ := enter_of_blank clock hb a
      rw [commandLines_cons_of_blank hb]
      rw [hh] at hhistory hquit
      exact ⟨hhistory, hq ▸ hquit⟩
    · obtain ⟨hh, hq⟩ := enter_of_not_blank clock hb a
      rw [commandLines_cons hb, replies]
      rw [hh] at hhistory hquit
      refine ⟨hhistory.trans (leftBy_cons _ _ _).symm, hquit.trans ?_⟩
      rw [hq, List.any_cons, Bool.or_assoc]

/-- After any lines entered into a new calculator its history is the one that the console
has after the same lines by the same clock. By another clock of the console the two differ in
the times alone. It has quit exactly if a reply of the console said to stop. -/
theorem enter_lines_eq_replies (clock : Clock) (lines : List Text) :
    let a := lines.foldl (enter clock) {}
    let left (other : Clock) := leftBy (replies other {} (commandLines lines)) {}
    a.history = left clock ∧
      ∀ other, a.history.untimed = (left other).untimed ∧
        (a.quit = true ↔ ∃ r ∈ replies other {} (commandLines lines), r.goesOn = false) := by
  intro a left
  obtain ⟨hhistory, hquit⟩ := enter_lines clock lines {}
  refine ⟨hhistory, fun other => ?_⟩
  obtain ⟨hplain, hgoesOn⟩ := replies_untimed clock {} (commandLines lines)
  obtain ⟨hplain', hgoesOn'⟩ := replies_untimed other {} (commandLines lines)
  refine ⟨(congrArg History.untimed hhistory).trans (hplain.trans hplain'.symm), ?_⟩
  have hsame := hgoesOn.trans hgoesOn'.symm
  have hany : ∀ rs : List Reply, (∃ r ∈ rs, r.goesOn = false) ↔ false ∈ rs.map (·.goesOn) :=
    fun rs => by rw [List.mem_map]
  rw [hquit, hany, ← hsame, ← hany]
  simp

end App

end Calculator
