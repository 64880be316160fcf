import Mathlib.Data.List.Infix
import Calculator.Proofs.Console.Ending
import Calculator.Proofs.FrontEnds

/-!
# Typed lines

Lines typed key by key, each with Enter behind it. The console draws a line anew before every
key, and at Enter it writes what the session of replies does for that line on the history
that the lines before it left; a blank line gets a line break. It stops behind the first line
that says to quit and leaves the keys of the lines behind it unread.
-/

namespace Calculator.Console

open Output

variable {clock : Clock}

/-- The press that types a character; a line feed is Enter. -/
def pressOf (c : Char) : Press :=
  { key := if c = '\n' then .enter else if c = '\t' then .tab else .char c }

/-- The presses that type lines, with Enter behind each. -/
def presses (lines : List Text) : List Press :=
  lines.flatMap fun line => (line ++ ['\n']).map pressOf

/-- The history that a session of replies has after lines. -/
def historyAfter (clock : Clock) (lines : List Text) : History :=
  leftBy (replies clock {} (commandLines lines)) {}

/-- What is written for a line behind others: a line break for a blank one, else the reply to
its command. -/
def answerTo (clock : Clock) (before : List Text) (line : Text) : Text :=
  if Text.trim line = [] then lineBreak
  else (reply clock (historyAfter clock before) (Command.ofLine (Text.trim line))).written

def quits (line : Text) : Bool := Command.ofLine (Text.trim line) = .quit

def drawn (row : Nat) (line : Text) : List Output :=
  [goTo 1 row, clearLine, text (promptText ++ line),
    goTo ((promptText.length + line.length + 1) % columnBound) row]

/-- A prompt at which a line is typed: it is drawn with each of its fronts, itself the last. -/
def typing (row : Nat) (line : Text) : List Output := askLine ++ line.inits.flatMap (drawn row)

/-- What is shown for lines behind others, each followed by its answer, up to the line that
quits; where none does, an empty prompt stands at the end. -/
def dialogue (clock : Clock) (rows : List Nat) (before : List Text) : List Text → List Output
  | [] => typing (nextRow rows).1 []
  | line :: later =>
    typing (nextRow rows).1 line ++ text (answerTo clock before line) ::
      if quits line then [] else dialogue clock (nextRow rows).2 (before ++ [line]) later

/-! ## The history between two lines -/

theorem leftBy_replies_concat (history : History) (lines : List Text) (line : Text) :
    leftBy (replies clock history (lines ++ [line])) history =
      (reply clock (leftBy (replies clock history lines) history)
        (Command.ofLine line)).history := by
  induction lines generalizing history with
  | nil => rfl
  | cons first lines ih =>
    rw [List.cons_append, replies, replies, leftBy_cons, leftBy_cons]
    exact ih _

theorem historyAfter_concat_of_blank {line : Text} (h : Text.trim line = []) (lines : List Text) :
    historyAfter clock (lines ++ [line]) = historyAfter clock lines := by
  have hlines : commandLines (lines ++ [line]) = commandLines lines := by
    simp [commandLines, h]
  rw [historyAfter, hlines, historyAfter]

theorem historyAfter_concat {line : Text} (h : Text.trim line ≠ []) (lines : List Text) :
    historyAfter clock (lines ++ [line]) =
      (reply clock (historyAfter clock lines) (Command.ofLine (Text.trim line))).history := by
  have hlines : commandLines (lines ++ [line]) = commandLines lines ++ [Text.trim line] := by
    simp [commandLines, h]
  rw [historyAfter, hlines, leftBy_replies_concat]
  rfl

/-! ## One line -/

/-- A transcript with something written before it. -/
def Transcript.behind (t : Transcript) (shown : List Output) : Transcript :=
  { t with written := shown ++ t.written }

theorem Transcript.behind_behind (t : Transcript) (a b : List Output) :
    (t.behind a).behind b = t.behind (b ++ a) :=
  congrArg (Transcript.mk · _) (List.append_assoc b a _).symm

/-- What a run writes from the reading of a key on. -/
def Session.react (clock : Clock) (s : Session) (k : Press) (ks : List Press) : Transcript :=
  match s.press clock k with
  | .stop written => ⟨written ++ [text goodbye], ks⟩
  | .goOn written next => (next.run clock ks).behind written

theorem Session.run_cons (s : Session) (k : Press) (ks : List Press) :
    s.run clock (k :: ks) = (s.react clock k ks).behind s.redraw := by
  rw [run, react]
  cases s.press clock k with
  | stop written => exact congrArg (Transcript.mk · _) (List.append_assoc _ _ _)
  | goOn written next => exact congrArg (Transcript.mk · _) (List.append_assoc _ _ _)

theorem Line.insert_ofText (front : Text) (c : Char) :
    (Line.ofText front).insert c = Line.ofText (front ++ [c]) := by
  have htext : Text.insertAt front.length c front = front ++ [c] := by
    rw [Text.insertAt, List.take_length, List.drop_length]
  have hlength : front.length + 1 = (front ++ [c]).length := by simp
  rw [insert, ofText, ofText, htext, hlength]

theorem Session.press_pressOf (s : Session) (front : Text) {c : Char} (hc : c ≠ '\n') :
    (s.withLine (.ofText front)).press clock (pressOf c) =
      .goOn [] (s.withLine (.ofText (front ++ [c]))) := by
  rw [← Line.insert_ofText, pressOf, if_neg hc]
  split
  · rename_i htab
    rw [htab]
    rfl
  · rfl

/-- Typing a line draws each of its fronts before the key behind it is read. -/
theorem Session.run_typing (clock : Clock) (s : Session) {line : Text} (h : '\n' ∉ line) (k : Press)
    (ks : List Press) :
    (s.withLine (.ofText [])).run clock (line.map pressOf ++ k :: ks) =
      ((s.withLine (.ofText line)).react clock k ks).behind (line.inits.flatMap (drawn s.row)) := by
  induction line using List.reverseRecOn generalizing k ks with
  | nil => exact run_cons _ k ks
  | append_singleton front c ih =>
    simp only [List.mem_append, List.mem_singleton, not_or] at h
    obtain ⟨hfront, hc⟩ := h
    have hreact : (s.withLine (.ofText front)).react clock (pressOf c) (k :: ks) =
        ((s.withLine (.ofText (front ++ [c]))).react clock k ks).behind
          (drawn s.row (front ++ [c])) := by
      rw [react, s.press_pressOf front (Ne.symm hc)]
      exact run_cons _ k ks
    rw [List.map_append, List.append_assoc]
    refine (ih hfront (pressOf c) (k :: ks)).trans ?_
    rw [hreact, Transcript.behind_behind, List.inits_append, List.flatMap_append]
    simp

/-! ## Any lines -/

theorem presses_cons (line : Text) (later : List Text) :
    presses (line :: later) = line.map pressOf ++ { key := .enter } :: presses later := by
  simp [presses, pressOf]

theorem quits_eq_false_of_blank {line : Text} (h : Text.trim line = []) : quits line = false := by
  rw [quits, h]
  decide +kernel

theorem goesOn_reply_of_quits (clock : Clock) (history : History) (line : Text) :
    (reply clock history (Command.ofLine (Text.trim line))).goesOn = !quits line := by
  rw [quits]
  cases Command.ofLine (Text.trim line) <;> rfl

theorem react_enter (clock : Clock) (before : List Text) (line : Text) (place row : Nat)
    (rows : List Nat) (ks : List Press) :
    let s : Session := ⟨historyAfter clock before, ⟨.ofText line, place⟩, row, rows⟩
    ∃ place', s.react clock { key := .enter } ks =
      if quits line then ⟨[text (answerTo clock before line), text goodbye], ks⟩
      else ((Session.ask (historyAfter clock (before ++ [line])) place' rows).run clock ks).behind
        (text (answerTo clock before line) :: askLine) := by
  intro s
  have hpress : s.press clock { key := .enter } = s.submit clock := rfl
  by_cases hb : Text.trim line = []
  · refine ⟨place, ?_⟩
    have hsubmit :
        s.submit clock = .goOn (text lineBreak :: askLine) (.ask s.history place rows) := by
      simp only [Session.submit, s, Line.ofText, hb]
    rw [Session.react, hpress, hsubmit, quits_eq_false_of_blank hb, answerTo, if_pos hb,
      historyAfter_concat_of_blank hb]
    rfl
  · have hgo := goesOn_reply_of_quits clock s.history line
    have hsubmit : s.submit clock =
        let r := reply clock s.history (Command.ofLine (Text.trim line))
        if r.goesOn then .goOn (text r.written :: askLine) (.ask r.history r.history.size rows)
        else .stop [text r.written] := by
      simp only [Session.submit, s, Line.ofText]
    refine ⟨(historyAfter clock (before ++ [line])).size, ?_⟩
    rw [Session.react, hpress, hsubmit, historyAfter_concat hb, answerTo, if_neg hb]
    dsimp only
    rw [hgo]
    cases quits line <;> rfl

theorem run_line (clock : Clock) (before : List Text) {line : Text} (h : '\n' ∉ line) (place : Nat)
    (rows : List Nat) (ks : List Press) :
    ∃ place', (Session.ask (historyAfter clock before) place rows).run clock
        (line.map pressOf ++ { key := .enter } :: ks) =
      (if quits line then ⟨[text (answerTo clock before line), text goodbye], ks⟩
        else
          ((Session.ask (historyAfter clock (before ++ [line])) place' (nextRow rows).2).run
            clock ks).behind (text (answerTo clock before line) :: askLine)).behind
        (line.inits.flatMap (drawn (nextRow rows).1)) := by
  obtain ⟨place', hreact⟩ :=
    react_enter clock before line place (nextRow rows).1 (nextRow rows).2 ks
  have htyping :=
    Session.run_typing clock (.ask (historyAfter clock before) place rows) h { key := .enter } ks
  exact ⟨place', htyping.trans (congrArg (Transcript.behind · _) hreact)⟩

theorem run_lines (clock : Clock) (before : List Text) {lines : List Text}
    (h : ∀ line ∈ lines, '\n' ∉ line) (place : Nat) (rows : List Nat) :
    ((Session.ask (historyAfter clock before) place rows).run clock (presses lines)).behind
        askLine =
      ⟨dialogue clock rows before lines ++ [text goodbye],
        presses (lines.dropWhile (!quits ·)).tail⟩ := by
  induction lines generalizing before place rows with
  | nil => rfl
  | cons line later ih =>
    obtain ⟨hline, hlater⟩ := List.forall_mem_cons.mp h
    obtain ⟨place', hrun⟩ := run_line clock before hline place rows (presses later)
    rw [presses_cons, hrun, dialogue, List.dropWhile_cons, Transcript.behind_behind]
    cases quits line with
    | true => simp [Transcript.behind, typing]
    | false =>
      have hnext := ih (before ++ [line]) hlater place' (nextRow rows).2
      have hask (t : Transcript) (o : Output) :
          t.behind (o :: askLine) = (t.behind askLine).behind [o] :=
        (t.behind_behind askLine [o]).symm
      simp only [Bool.false_eq_true, ↓reduceIte, Bool.not_false, hask, hnext]
      simp [Transcript.behind, typing]

/-- What a run on typed lines writes: banner, dialogue and goodbye. In the dialogue the
answer to each line, between its Enter and the next prompt, is what the session of replies
writes for it on the history after the lines before. All keys behind the first line that
quits stay unread, and none if there is no such line. -/
theorem run_presses (clock : Clock) (rows : List Nat) (lines : List Text)
    (h : ∀ line ∈ lines, '\n' ∉ line) :
    let t := (run clock none rows (presses lines)).1
    t.written = text banner :: dialogue clock rows [] lines ++ [text goodbye] ∧
      t.written.count (text goodbye) = 1 ∧
      t.unread = presses (lines.dropWhile (!quits ·)).tail ∧
      (run clock none rows (presses lines)).2 = none := by
  have hrun := run_lines clock [] h 0 rows
  have hwritten := congrArg Transcript.written hrun
  have hunread := congrArg Transcript.unread hrun
  have hcount := (count_goodbye clock rows (presses lines)).1
  exact ⟨congrArg (text banner :: ·) hwritten, hcount, hunread, rfl⟩

/-- A calculation, a blank line and a listing are answered; nothing behind `Quit` is read. -/
theorem run_presses_up_to_quit :
    let clock : Clock := fun _ => 0
    let lines := ["7 ".toList, ['\t'], "history".toList, "Quit".toList, "clear".toList]
    let t := (run clock none [3] (presses lines)).1
    (∀ line ∈ lines, '\n' ∉ line) ∧
      t.written = text banner :: dialogue clock [3] [] lines ++ [text goodbye] ∧
      t.unread = presses ["clear".toList] ∧
      answerTo clock [] "7 ".toList = "\r\n  #1 7 = 7\r\n\r\n".toList ∧
      answerTo clock ["7 ".toList] ['\t'] = "\r\n".toList ∧
      answerTo clock ["7 ".toList, ['\t']] "history".toList =
        "\r\n\r  #1 7 = 7\r\n\r\n".toList := by
  intro clock lines t
  have hlines : ∀ line ∈ lines, '\n' ∉ line := by decide
  have hquit : (lines.dropWhile (!quits ·)).tail = ["clear".toList] := by decide +kernel
  obtain ⟨hwritten, -, hunread, -⟩ := run_presses clock [3] lines hlines
  refine ⟨hlines, hwritten, hquit ▸ hunread, ?_, ?_, ?_⟩ <;> decide +kernel

end Calculator.Console
