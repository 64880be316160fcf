import Calculator.App
import Calculator.Screen.EntryLines
import Calculator.Screen.Help

/-!
# Drawing

`App.picture?` draws the calculator: the input with the cursor on top, a status bar, and the
list of all calculations below, to be shown from the scroll offset on with the first line of
the selected entry in sight. Drawing also settles what depends on the size of the screen: the
input's scroll, the list's height, where each entry starts, and a scroll to the end that is
pending. There is no answer where an entry cannot be wrapped. What is seen of the picture is
up to the toolkit (`App.draw?`).
-/

namespace Calculator

namespace Toolkit

variable (t : Toolkit) (w h : Nat)

/-- The areas of the input, the status bar and the history on a screen of `w` columns and `h`
rows. -/
def panels : Area × Area × Area := t.stack ⟨0, 0, w, h⟩ (.exactly 3) (.exactly 1) (.atLeast 3)

def inputArea : Area := t.inside (t.panels w h).1

def listArea : Area := t.inside (t.panels w h).2.2

end Toolkit

namespace Screen

variable (m : Measure)

/-- Columns of the input panel that hold no input: the prompt and a last one for
the cursor. -/
def promptColumns : Nat := 3

def visibleInput (a : App) (w : Nat) : Text := (a.input.drop a.inputScroll).take w

/-- The prompt, which shows whether input is hidden on the left. -/
def promptMark (a : App) : Text := if 0 < a.inputScroll then "< ".toList else "> ".toList

def inputLine (a : App) (w : Nat) : List Span :=
  [⟨promptMark a, .of .green⟩, ⟨visibleInput a (w - promptColumns), {}⟩]

/-- The column of the cursor in an area. Both the text before it and its position are counted
in sixteen bits. -/
def cursorColumn (a : App) (area : Area) : Nat :=
  let before := (visibleInput a (area.width - promptColumns)).take (a.cursor - a.inputScroll)
  (area.left + ((promptMark a).length + m.width before) % positionBound) % positionBound

def keyHints : List (Text × Text) :=
  ([("Enter", "calculate"), ("↑/↓", "recall"), ("PgUp/PgDn", "page"), ("F1", "help"),
    ("Ctrl+C", "quit")] : List (String × String)).map fun h => (h.1.toList, h.2.toList)

/-- The message, or the hints where there is none. -/
def statusLine (a : App) : List Span :=
  match a.status with
  | some message => [⟨message, .strong .yellow⟩]
  | none => keyHints.flatMap fun h => [⟨h.1, .of .yellow⟩, ⟨' ' :: h.2 ++ [' ', ' '], dim⟩]

def separator (w : Nat) : List Span := [⟨List.replicate w '─', dim⟩]

/-- The rows of the list, from the entry of index `i` at row `n` on, and the rows
at which entries start. -/
def listRows? (w selected i n : Nat) : List Entry → Option (List Nat × List (List Span))
  | [] => some ([], [])
  | entry :: rest => do
    let lead := if i = 0 then [] else [separator w]
    let start := n + lead.length
    let lines ← entryLines? m entry w (i == selected)
    let (starts, rows) ← listRows? w selected (i + 1) (start + lines.length) rest
    some (start :: starts, lead ++ lines ++ rows)

def emptyHint : Text := "Type an expression and press Enter. Results appear here.".toList

def historyTitle (n : Nat) : Text := " History (".toList ++ Text.ofNat n ++ ") ".toList

end Screen

namespace App

open Screen

variable (m : Measure) (t : Toolkit)

/-- The state after drawing a list of `n` rows. -/
def settle (a : App) (starts : List Nat) (n : Nat) : App :=
  let scroll := if a.toBottom then n - a.listHeight else a.listScroll
  { a with starts, listScroll := min scroll (n - 1), toBottom := false }

/-- What the history panel holds, `w` columns inside. -/
def listContent? (w : Nat) (a : App) : Option (App × Content) :=
  if a.history.isEmpty then some (a, .centred [⟨emptyHint, dim⟩])
  else do
    let (starts, rows) ← listRows? m w a.selected 0 0 a.history.entries
    let a := a.settle starts rows.length
    some (a, .list rows a.starts[a.selected]? a.listScroll)

/-- The state in which a screen of `w` columns and `h` rows is filled. -/
def sized (w h : Nat) (a : App) : App :=
  { a.fitInput ((t.inputArea w h).width - promptColumns) with
    listHeight := (t.listArea w h).height }

def panesAbove (w h : Nat) (a : App) : List Pane :=
  let (input, status, _) := t.panels w h
  [{ area := input
     border := some { title := " Expression ".toList }
     content := .line (inputLine a (t.inputArea w h).width) },
   { area := status, content := .line (statusLine a) }]

def pictureAround (w h : Nat) (a : App) (content : Content) : Picture where
  panes := a.panesAbove t w h ++
    [{ area := (t.panels w h).2.2
       border := some { title := historyTitle a.history.size }
       content }]
  cursor := some (cursorColumn m a (t.inputArea w h), (t.inputArea w h).top)

def picture? (w h : Nat) (a : App) : Option (App × Picture) :=
  if a.helpOpen then some (a, helpPicture w h a.helpScroll)
  else do
    let a := a.sized t w h
    let (b, content) ← a.listContent? m (t.listArea w h).width
    some (b, a.pictureAround m t w h content)

/-- Draws, and shows what was drawn. -/
def draw? (w h : Nat) (a : App) : Option (App × Screen) :=
  (a.picture? m t w h).map fun p => (p.1, t.render w h p.2)

end App

end Calculator
