import Calculator.Text.Width

/-!
# Text in screen cells

A screen shows characters in cells. A character together with the marks behind it
fills one cell, or two if it is wide; marks without a character before them are not
shown. A control character has a cell of its own, which no mark joins, and a line
break of two characters shares one. Text is cut where it no longer fits, and a wide
character is never split.
-/

namespace Calculator.Screen

/-- Control and format characters, separators among them. -/
def controlRuns : List (Nat × Nat) :=
  [(0x00, 0x1F), (0x7F, 0x9F), (0xAD, 0xAD), (0x61C, 0x61C), (0x180E, 0x180E), (0x200B, 0x200B),
   (0x200E, 0x200F), (0x2028, 0x202E), (0x2060, 0x206F), (0xFEFF, 0xFEFF), (0xFFF0, 0xFFFB),
   (0x13430, 0x1343F), (0x1BCA0, 0x1BCA3), (0x1D173, 0x1D17A), (0xE0000, 0xE001F),
   (0xE0080, 0xE00FF), (0xE01F0, 0xE0FFF)]

/-- Whether a character neither joins another one nor is joined. -/
def isControl (c : Char) : Bool := Text.inRuns controlRuns c.toNat

/-- Whether a character joins the cell of the character before it. -/
def isMark (c : Char) : Bool := Text.columns c == 0 && !isControl c

def cellsOf : Text → List Text
  | [] => []
  | '\r' :: '\n' :: cs => ['\r', '\n'] :: cellsOf cs
  | c :: cs =>
    have := Text.length_dropWhile_le isMark cs
    if Text.columns c = 0 then cellsOf cs
    else if isControl c then [c] :: cellsOf cs
    else (c :: cs.takeWhile isMark) :: cellsOf (cs.dropWhile isMark)
termination_by cs => cs.length

/-- Columns of a cell: those of its first character. -/
def cellWidth : Text → Nat
  | [] => 0
  | c :: _ => Text.columns c

def cellsWidth : List Text → Nat
  | [] => 0
  | cell :: rest => cellWidth cell + cellsWidth rest

/-- As many cells from the start as fit into `w` columns. -/
def takeFitting (w : Nat) : List Text → List Text
  | [] => []
  | cell :: rest => if cellWidth cell ≤ w then cell :: takeFitting (w - cellWidth cell) rest else []

/-- Texts one after the other, without line feeds, cut at the first cell that does
not fit. -/
def clip (w : Nat) (texts : List Text) : List Text :=
  takeFitting w ((texts.flatMap cellsOf).filter (· ≠ ['\n']))

/-- Texts one after the other, each cut to the columns left for it. -/
def clipEach (w : Nat) : List Text → List Text
  | [] => []
  | cs :: rest =>
    let shown := takeFitting w (cellsOf cs)
    shown ++ clipEach (w - cellsWidth shown) rest

/-- Cells column by column: behind a wide one there are empty ones. -/
def spread (cells : List Text) : List Text :=
  cells.flatMap fun cell => cell :: List.replicate (cellWidth cell - 1) []

/-- Exactly `w` columns, filled up with spaces. -/
def padTo (w : Nat) (cells : List Text) : List Text :=
  (spread cells ++ List.replicate w [' ']).take w

end Calculator.Screen
