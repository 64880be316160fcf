import Calculator.History
import Calculator.Key

/-!
# The input line of the console

A line being typed: its text, the cursor as a count of characters, and the place
in the history that Up and Down last recalled. Characters go in at the cursor;
keys without a meaning leave the line alone.
-/

namespace Calculator.Console

structure Line where
  text : Text := []
  /-- How many characters stand before the cursor. -/
  cursor : Nat := 0
  deriving DecidableEq

namespace Line

def ofText (text : Text) : Line := ⟨text, text.length⟩

def insert (line : Line) (c : Char) : Line :=
  ⟨Text.insertAt line.cursor c line.text, line.cursor + 1⟩

def backspace (line : Line) : Line :=
  if 0 < line.cursor then ⟨line.text.eraseIdx (line.cursor - 1), line.cursor - 1⟩ else line

def delete (line : Line) : Line :=
  if line.cursor < line.text.length then ⟨line.text.eraseIdx line.cursor, line.cursor⟩ else line

def left (line : Line) : Line :=
  if 0 < line.cursor then { line with cursor := line.cursor - 1 } else line

def right (line : Line) : Line :=
  if line.cursor < line.text.length then { line with cursor := line.cursor + 1 } else line

def edit (line : Line) : Key → Line
  | .char c => line.insert c
  | .tab => line.insert '\t'
  | .backspace => line.backspace
  | .delete => line.delete
  | .left => line.left
  | .right => line.right
  | .lineStart => { line with cursor := 0 }
  | .lineEnd => { line with cursor := line.text.length }
  | _ => line

end Line

/-- A line and the index of the entry that Up and Down stand at; the number of
entries when they stand below the newest. -/
structure Prompt where
  line : Line := {}
  place : Nat
  deriving DecidableEq

namespace Prompt

def recalled (history : History) (i : Nat) : Line :=
  Line.ofText ((history.entries[i]?).elim [] (·.expression))

def older (p : Prompt) (history : History) : Prompt :=
  if 0 < p.place then ⟨recalled history (p.place - 1), p.place - 1⟩ else p

/-- Recalls the entry behind, or an empty line behind the newest. -/
def newer (p : Prompt) (history : History) : Prompt :=
  if p.place + 1 < history.size then ⟨recalled history (p.place + 1), p.place + 1⟩
  else ⟨{}, history.size⟩

/-- The prompt after a key that neither submits nor ends. -/
def press (p : Prompt) (history : History) (k : Press) : Prompt :=
  if k.ctrl ∨ k.alt then p
  else
    match k.key with
    | .up => p.older history
    | .down => p.newer history
    | key => { p with line := p.line.edit key }

end Prompt

end Calculator.Console
