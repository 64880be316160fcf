import Calculator.App
import Calculator.Console.Line
import Calculator.Text.Slice

/-!
# Editing by bytes

The two lines being edited once more, on a text kept in UTF-8: the place of the cursor is
turned into a byte offset, and the text is cut there. Each step has an answer, the one of
the line of characters, wherever the cursor stands.
-/

namespace Calculator

/-! ## The console's line -/

namespace Console.Line

/-- Takes out the bytes of the character at position `i`, if there is one. -/
def drainChar? (cs : Text) (i : Nat) : Option Text :=
  let b := Text.utf8Offset cs i
  match Text.cutAt? b cs with
  | none => none
  | some (_, []) => some cs
  | some (_, c :: _) => Text.drain? b (b + c.utf8Size) cs

def insertBytes? (line : Line) (c : Char) : Option Line :=
  (Text.insertAtByte? (Text.utf8Offset line.text line.cursor) c line.text).map
    (⟨·, line.cursor + 1⟩)

def backspaceBytes? (line : Line) : Option Line :=
  if 0 < line.cursor then
    (drainChar? line.text (line.cursor - 1)).map (⟨·, line.cursor - 1⟩)
  else some line

def deleteBytes? (line : Line) : Option Line :=
  if line.cursor < line.text.length then
    (drainChar? line.text line.cursor).map (⟨·, line.cursor⟩)
  else some line

/-- The line after a key that edits it, by bytes where the text changes. -/
def editBytes? (line : Line) : Key → Option Line
  | .char c => line.insertBytes? c
  | .tab => line.insertBytes? '\t'
  | .backspace => line.backspaceBytes?
  | .delete => line.deleteBytes?
  | key => some (line.edit key)

theorem drainChar?_eq (cs : Text) (i : Nat) : drainChar? cs i = some (cs.eraseIdx i) := by
  rw [drainChar?, Text.cutAt?_utf8Offset]
  rcases Nat.lt_or_ge i cs.length with h | h
  · rw [List.drop_eq_getElem_cons h]
    exact Text.drain?_utf8Offset h
  · rw [List.drop_eq_nil_of_le h, List.eraseIdx_of_length_le h]

theorem insertBytes?_eq (line : Line) (c : Char) : line.insertBytes? c = some (line.insert c) := by
  rw [insertBytes?, Text.insertAtByte?_utf8Offset]
  rfl

theorem backspaceBytes?_eq (line : Line) : line.backspaceBytes? = some line.backspace := by
  rw [backspaceBytes?, drainChar?_eq, backspace]
  split <;> rfl

theorem deleteBytes?_eq (line : Line) : line.deleteBytes? = some line.delete := by
  rw [deleteBytes?, drainChar?_eq, delete]
  split <;> rfl

theorem editBytes?_eq (line : Line) (key : Key) : line.editBytes? key = some (line.edit key) := by
  cases key with
  | char c => exact line.insertBytes?_eq c
  | tab => exact line.insertBytes?_eq '\t'
  | backspace => exact line.backspaceBytes?_eq
  | delete => exact line.deleteBytes?_eq
  | _ => rfl

end Console.Line

/-! ## The input of the full-screen calculator -/

namespace App

def insertBytes? (a : App) (c : Char) : Option App :=
  (Text.insertAtByte? (Text.utf8Offset a.input a.cursor) c a.input).map fun input =>
    { a with input, cursor := a.cursor + 1 }

def deleteForwardBytes? (a : App) : Option App :=
  let b := Text.utf8Offset a.input a.cursor
  if b < Text.utf8Length a.input then
    (Text.removeAtByte? b a.input).map fun input => { a with input }
  else some a

def deleteBackwardBytes? (a : App) : Option App :=
  if a.cursor = 0 then some a else deleteForwardBytes? { a with cursor := a.cursor - 1 }

/-- The calculator after a key that edits its input, by bytes where the text changes. -/
def editBytes? (clock : Clock) (a : App) : Key → Option App
  | .char c => a.insertBytes? c
  | .backspace => a.deleteBackwardBytes?
  | .delete => a.deleteForwardBytes?
  | key => some (a.pressPlain clock key)

theorem insertBytes?_eq (a : App) (c : Char) : a.insertBytes? c = some (a.insert c) := by
  rw [insertBytes?, Text.insertAtByte?_utf8Offset]
  rfl

theorem deleteForwardBytes?_eq (a : App) : a.deleteForwardBytes? = some a.deleteForward := by
  unfold deleteForwardBytes? deleteForward
  simp only [Text.utf8Offset_lt_iff]
  split
  · rename_i h
    rw [Text.removeAtByte?_utf8Offset h]
    rfl
  · rename_i h
    rw [List.eraseIdx_of_length_le (Nat.le_of_not_lt h)]

theorem deleteBackwardBytes?_eq (a : App) : a.deleteBackwardBytes? = some a.deleteBackward := by
  unfold deleteBackwardBytes? deleteBackward
  split
  · rfl
  · exact deleteForwardBytes?_eq _

theorem editBytes?_eq (clock : Clock) (a : App) (key : Key) :
    a.editBytes? clock key = some (a.pressPlain clock key) := by
  cases key with
  | char c => exact a.insertBytes?_eq c
  | backspace => exact a.deleteBackwardBytes?_eq
  | delete => exact a.deleteForwardBytes?_eq
  | _ => rfl

end App

end Calculator
