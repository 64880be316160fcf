import Calculator.Console.Line
import Calculator.Console.Reply
import Calculator.Console.Terminal

/-!
# The console

The program that reads expressions from a terminal, key by key. At every prompt it
asks for the row of the cursor and then redraws the line before each key. Enter
carries out the line; a blank line only asks again. It ends with a goodbye: after
`quit`, after Ctrl+C or Ctrl+D, or when the terminal sends no more keys.
-/

namespace Calculator.Console

open Output

def promptText : Text := "Expression: ".toList

def banner : Text :=
  ("ShuntCalc Console Calculator\n" ++
    "Supports: +, -, *, /, ^ (right associative), parentheses, sqrt(x)\n" ++
    "Navigation: ←/→, Backspace/Delete, Home/End, ↑/↓ for history\n" ++
    "Special commands: 'quit' to exit, 'clear' to reset history,\n" ++
    "  'history' to list past results, 'delete <id>' to drop one\n" ++
    "Add 'details' before expression for step-by-step evaluation\n\n").toList

def goodbye : Text := lineBreak ++ "Goodbye!".toList ++ lineBreak

/-- The console while it reads a line. -/
structure Session where
  history : History := {}
  prompt : Prompt := { place := 0 }
  /-- The row the line is drawn in. -/
  row : Nat
  /-- The rows the terminal will report, the last one over and over. -/
  rows : List Nat

/-- The next row reported, and the reports after it. -/
def nextRow : List Nat → Nat × List Nat
  | [] => (1, [])
  | [row] => (row, [row])
  | row :: rows => (row, rows)

def askLine : List Output := [clearLine, text promptText, askPosition]

/-- The session at a new prompt, Up and Down standing at a given entry. -/
def Session.ask (history : History) (place : Nat) (rows : List Nat) : Session :=
  let (row, rows) := nextRow rows
  { history, prompt := { place }, row, rows }

/-- Column numbers are sixteen bits wide. -/
def columnBound : Nat := 65536

/-- Draws the line and puts the cursor into it. -/
def Session.redraw (s : Session) : List Output :=
  [goTo 1 s.row, clearLine, text (promptText ++ s.prompt.line.text),
    goTo ((promptText.length + s.prompt.line.cursor + 1) % columnBound) s.row]

inductive Reaction where
  | goOn (written : List Output) (session : Session)
  | stop (written : List Output)

def Session.submit (clock : Clock) (s : Session) : Reaction :=
  match Text.trim s.prompt.line.text with
  | [] => .goOn (text lineBreak :: askLine) (.ask s.history s.prompt.place s.rows)
  | line =>
    let r := reply clock s.history (Command.ofLine line)
    if r.goesOn then .goOn (text r.written :: askLine) (.ask r.history r.history.size s.rows)
    else .stop [text r.written]

def endsConsole (k : Press) : Bool :=
  k.ctrl && (k.key == .char 'c' || k.key == .char 'd')

def Session.press (clock : Clock) (s : Session) (k : Press) : Reaction :=
  if endsConsole k then .stop []
  else if k.key = .enter then s.submit clock
  else .goOn [] { s with prompt := s.prompt.press s.history k }

/-- All that a run writes, and the keys it leaves unread. -/
structure Transcript where
  written : List Output
  unread : List Press

def Session.run (clock : Clock) (s : Session) : List Press → Transcript
  | [] => ⟨s.redraw ++ [text goodbye], []⟩
  | k :: ks =>
    match s.press clock k with
    | .stop written => ⟨s.redraw ++ written ++ [text goodbye], ks⟩
    | .goOn written next =>
      let rest := next.run clock ks
      ⟨s.redraw ++ written ++ rest.written, rest.unread⟩

/-- Why the console cannot run. -/
inductive StartError where
  /-- The terminal refuses raw mode, for a reason of its own. -/
  | rawModeRefused (reason : Text)
  deriving DecidableEq, Repr

/-- The error and what led to it, outermost first. -/
def StartError.causes : StartError → List Text
  | rawModeRefused reason => ["failed to enter raw mode".toList, reason]

/-- A whole run on a terminal that reports `rows` and sends `keys`. A terminal that
refuses raw mode ends it after the banner. -/
def run (clock : Clock) (refusal : Option Text) (rows : List Nat) (keys : List Press) :
    Transcript × Option StartError :=
  match refusal with
  | some reason => (⟨[text banner], keys⟩, some (.rawModeRefused reason))
  | none =>
    let t := (Session.ask {} 0 rows).run clock keys
    ({ t with written := text banner :: askLine ++ t.written }, none)

end Calculator.Console
