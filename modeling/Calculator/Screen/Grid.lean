import Calculator.Screen.Cells
import Calculator.Screen.Toolkit

/-!
# A grid of cells

A toolkit that shows a picture by writing one pane after the other into the cells of the
screen (`Toolkit.grid`).
-/

namespace Calculator

namespace Screen

/-- The first row shown, and the one behind the last: `h` of `n` rows from
`offset` on, moved just enough to hold row `s`. -/
def window (n h offset s : Nat) : Nat × Nat :=
  let start := min offset (n - 1)
  let stop := min n (start + h)
  if stop ≤ s then (max start (s + 1 - h), s + 1)
  else if s < start then (s, min stop (s + h))
  else (start, stop)

def texts (line : List Span) : List Text := line.map (·.text)

/-- What is shown in `w` columns and `h` rows, as far down as there is something. -/
def Content.shown (w h : Nat) : Content → List (List Text)
  | .line spans => [clip w (texts spans)]
  | .centred spans =>
    let cells := clip w (texts spans)
    [List.replicate (w / 2 - cellsWidth cells / 2) [' '] ++ cells]
  | .page lines scroll => (lines.drop scroll).map fun line => clip w [line.dropWhile (· == ' ')]
  | .list items selected offset =>
    let (start, stop) := window items.length h offset (selected.getD 0)
    ((items.drop start).take (stop - start)).map fun line => clipEach w (texts line)

def Content.rows (w h : Nat) (content : Content) : List (List Text) :=
  ((content.shown w h ++ List.replicate h []).take h).map (padTo w)

/-- A row of a border, with a title `offset` columns from the corner. -/
def borderRow (left fill right : Char) (w offset : Nat) (title : Text) : List Text :=
  let shown := clip (w - offset) [title]
  [left] :: List.replicate offset [fill] ++ spread shown ++
    List.replicate (w - offset - cellsWidth shown) [fill] ++ [[right]]

def Border.around (border : Border) (w : Nat) (rows : List (List Text)) : List (List Text) :=
  let side (cell : Char) := rows.map fun row => [cell] :: (row ++ [[cell]])
  if border.centred then
    borderRow '╔' '═' '╗' w ((w + 2 - border.title.length) / 2 - 1) border.title ::
      (side '║' ++ [borderRow '╚' '═' '╝' w 0 []])
  else
    borderRow '┌' '─' '┐' w 0 border.title :: (side '│' ++ [borderRow '└' '─' '┘' w 0 []])

def insideOf (area : Area) : Area :=
  ⟨area.left + 1, area.top + 1, area.width - 2, area.height - 2⟩

def Pane.rows (pane : Pane) : List (List Text) :=
  match pane.border with
  | none => pane.content.rows pane.area.width pane.area.height
  | some border =>
    let inner := insideOf pane.area
    border.around inner.width (pane.content.rows inner.width inner.height)

/-- The row of the selected item of a list. -/
def Pane.marked? (pane : Pane) : Option Nat :=
  let inner := if pane.border.isSome then insideOf pane.area else pane.area
  match pane.content with
  | .list items (some s) offset =>
    some (inner.top + (s - (window items.length inner.height offset s).1))
  | _ => none

/-- A row of cells with others put in from a column on, as far as there is room. -/
def paint (left : Nat) (cells row : List Text) : List Text :=
  row.take left ++ cells.take (row.length - left) ++ row.drop (left + cells.length)

/-- Rows of cells with those of a pane put in. -/
def overlay (cells : List (List Text)) (pane : Pane) : List (List Text) :=
  let area := pane.area
  let rows := pane.rows
  cells.mapIdx fun y row =>
    if area.top ≤ y ∧ y < area.top + area.height then
      paint area.left ((rows[y - area.top]?.getD []).take area.width) row
    else row

/-- The rows an area gets of those that are left. -/
def Rows.height (left : Nat) : Rows → Nat
  | .exactly n => min n left
  | .atLeast _ => left

end Screen

open Screen

def Toolkit.grid : Toolkit where
  stack area a b c :=
    let first := a.height area.height
    let second := b.height (area.height - first)
    ({ area with height := first },
      { area with top := area.top + first, height := second },
      { area with
        top := area.top + first + second
        height := c.height (area.height - first - second) })
  inside := insideOf
  line w line := (padTo w (clipEach w (texts line))).flatten
  render w h picture :=
    { cells := picture.panes.foldl overlay (List.replicate h (List.replicate w [' ']))
      marked := picture.panes.filterMap Pane.marked?
      cursor := picture.cursor }

end Calculator
