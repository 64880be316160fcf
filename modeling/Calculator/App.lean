import Calculator.Command
import Calculator.Key
import Calculator.Report

/-!
# The full-screen calculator

Its state, and what every key does to it: edit the input, walk through the history,
scroll, or carry out the input as a command. While the help screen is open only
scrolling and closing it have an effect. Positions count characters.
-/

namespace Calculator

structure App where
  input : Text := []
  /-- How many characters of the input stand before the cursor. -/
  cursor : Nat := 0
  /-- How many characters of the input are scrolled out on the left. -/
  inputScroll : Nat := 0
  history : History := {}
  /-- The index of the selected entry. -/
  selected : Nat := 0
  status : Option Text := none
  quit : Bool := false
  helpOpen : Bool := false
  helpScroll : Nat := 0
  /-- Rows of the history list when it was last drawn. -/
  listHeight : Nat := 5
  /-- The list row at which each entry started when it was last drawn. -/
  starts : List Nat := []
  listScroll : Nat := 0
  /-- Whether the next drawing scrolls the list to its end. -/
  toBottom : Bool := false

namespace App

/-! ## Editing -/

def insert (a : App) (c : Char) : App :=
  { a with input := Text.insertAt a.cursor c a.input, cursor := a.cursor + 1 }

def deleteForward (a : App) : App := { a with input := a.input.eraseIdx a.cursor }

def deleteBackward (a : App) : App :=
  if a.cursor = 0 then a else deleteForward { a with cursor := a.cursor - 1 }

/-- Moves the cursor one character back or forth; other distances do nothing. -/
def moveCursor (a : App) (direction : Int) : App :=
  if direction = -1 then { a with cursor := a.cursor - 1 }
  else if direction = 1 then { a with cursor := min (a.cursor + 1) a.input.length }
  else a

def moveHome (a : App) : App := { a with cursor := 0, inputScroll := 0 }

def moveEnd (a : App) : App := { a with cursor := a.input.length }

/-- The start of the word at or before a position. -/
def wordLeft (cs : Text) (i : Nat) : Nat :=
  (((cs.take i).reverse.dropWhile Text.isBlank).dropWhile (!Text.isBlank ·)).length

/-- The start of the word behind the one at a position. -/
def wordRight (cs : Text) (i : Nat) : Nat :=
  let rest := cs.drop i
  i + (rest.length - ((rest.dropWhile (!Text.isBlank ·)).dropWhile Text.isBlank).length)

def moveByWord (a : App) (direction : Int) : App :=
  { a with
    cursor := if direction < 0 then wordLeft a.input a.cursor else wordRight a.input a.cursor }

def clearInput (a : App) : App := { a with input := [], cursor := 0, inputScroll := 0 }

/-- Scrolls the input so that the cursor is visible in `w` columns and no room is
left at the end while characters are hidden in front. -/
def fitInput (a : App) (w : Nat) : App :=
  let scroll :=
    if a.cursor < a.inputScroll then a.cursor
    else if a.inputScroll + w ≤ a.cursor then a.cursor + 1 - max w 1
    else a.inputScroll
  { a with inputScroll := min scroll (a.input.length - w) }

/-! ## History and help -/

def loadSelected (a : App) : App :=
  let input := (a.history.entries[a.selected]?).elim [] (·.expression)
  { a with input, cursor := input.length, inputScroll := 0 }

def navigate (a : App) (direction : Int) : App :=
  let selected :=
    if direction < 0 ∧ 0 < a.selected then a.selected - 1
    else if 0 < direction ∧ a.selected < a.history.size - 1 then a.selected + 1
    else a.selected
  { loadSelected { a with selected } with toBottom := false }

/-- Moves the selection by a page less one row and recalls the entry. -/
def page (a : App) (direction : Int) : App :=
  let step := a.listHeight - 1
  let selected :=
    if direction < 0 then a.selected - step
    else min (a.selected + step) (a.history.size - 1)
  { loadSelected { a with selected } with toBottom := false }

def openHelp (a : App) : App := { a with helpOpen := true, helpScroll := 0 }

def closeHelp (a : App) : App := { a with helpOpen := false, helpScroll := 0 }

/-- Scroll offsets stay below this bound. -/
def scrollBound : Nat := Nat.pow 2 64

/-- An offset moved by `delta`, kept between 0 and the greatest offset. -/
def shifted (offset : Nat) (delta : Int) : Nat :=
  min (offset + delta).toNat (scrollBound - 1)

def scrollBy (a : App) (delta : Int) : App :=
  if a.helpOpen then { a with helpScroll := shifted a.helpScroll delta }
  else { a with listScroll := shifted a.listScroll delta }

/-! ## Commands -/

def obey (clock : Clock) (a : App) : Command → App
  | .quit => { a with quit := true }
  | .clear => clearInput { a with history := a.history.clear, selected := 0, listScroll := 0 }
  | .help => a.openHelp.clearInput
  | .history => clearInput { a with toBottom := true }
  | .delete id =>
    let history := a.history.erase id
    clearInput
      { a with
        history
        status := some (deletionMessage id (a.history.get? id))
        selected := min a.selected (history.size - 1) }
  | .invalid e => clearInput { a with status := some e.message }
  | .evaluate expression detailed =>
    let history := a.history.record expression detailed (a.history.reading clock)
    clearInput { a with history, selected := history.size - 1, toBottom := true }

/-- Carries out the input, unless it is blank. -/
def submit (clock : Clock) (a : App) : App :=
  match Text.trim a.input with
  | [] => a
  | line => obey clock { a with status := none } (Command.ofLine line)

/-! ## Keys -/

/-- How far a page key scrolls the help screen. -/
def helpPage : Int := 10

def pressInHelp (a : App) : Key → App
  | .up => a.scrollBy (-1)
  | .down => a.scrollBy 1
  | .pageUp => a.scrollBy (-helpPage)
  | .pageDown => a.scrollBy helpPage
  | .escape | .function 1 => a.closeHelp
  | _ => a

def pressCtrlChar (a : App) (c : Char) : App :=
  if c = 'c' then { a with quit := true }
  else if c = 'u' then a.clearInput
  else a

/-- A key with Ctrl held down, where that makes a difference. -/
def pressCtrl? (a : App) : Key → Option App
  | .char c => some (a.pressCtrlChar c)
  | .left => some (a.moveByWord (-1))
  | .right => some (a.moveByWord 1)
  | _ => none

def pressPlain (clock : Clock) (a : App) : Key → App
  | .char c => a.insert c
  | .backspace => a.deleteBackward
  | .delete => a.deleteForward
  | .left => a.moveCursor (-1)
  | .right => a.moveCursor 1
  | .lineStart => a.moveHome
  | .lineEnd => a.moveEnd
  | .up => a.navigate (-1)
  | .down => a.navigate 1
  | .pageUp => a.page (-1)
  | .pageDown => a.page 1
  | .enter => a.submit clock
  | .function 1 => a.openHelp
  | .escape => { a with status := none }
  | _ => a

def press (clock : Clock) (a : App) (p : Press) : App :=
  if a.helpOpen then a.pressInHelp p.key
  else if p.ctrl then (a.pressCtrl? p.key).getD (a.pressPlain clock p.key)
  else a.pressPlain clock p.key

end App

end Calculator
