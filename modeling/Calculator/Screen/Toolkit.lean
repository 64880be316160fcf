import Calculator.Screen.Style
import Calculator.Text.Measure

/-!
# Pictures and screens

What the calculator draws is a picture: panes, each with text or a list in an area of the
screen, and a place for the cursor. A toolkit divides areas and shows pictures in the cells of
a screen. How it does so is not for the calculator to say; what statements assume of a toolkit
has a name here.
-/

namespace Calculator

structure Area where
  left : Nat
  top : Nat
  width : Nat
  height : Nat
  deriving DecidableEq

namespace Screen

/-- Positions on a screen are sixteen bits wide. -/
def positionBound : Nat := 65536

inductive Content where
  | line (spans : List Span)
  /-- A line in the middle of its area. -/
  | centred (spans : List Span)
  /-- Lines without the blanks in front of them, scrolled down. -/
  | page (lines : List Text) (scroll : Nat)
  /-- Lines to scroll through, with one that may be selected. They are to be shown from the
  offset on, as far as the selected one is in sight from there. -/
  | list (items : List (List Span)) (selected : Option Nat) (offset : Nat)

structure Border where
  title : Text
  /-- Whether the title stands in the middle of the border, which then has two lines. -/
  centred : Bool := false

structure Pane where
  area : Area
  border : Option Border := none
  content : Content

/-- Panes, drawn one after the other, and the column and row of the cursor. -/
structure Picture where
  panes : List Pane
  cursor : Option (Nat × Nat) := none

def Content.IsList : Content → Prop
  | list .. => True
  | _ => False

/-- A pane that is no list, above an area on a screen of `w` columns. -/
structure Pane.Above (pane : Pane) (w : Nat) (area : Area) : Prop where
  not_isList : ¬ pane.content.IsList
  right_le : pane.area.left + pane.area.width ≤ w
  bottom_le : pane.area.top + pane.area.height ≤ area.top

end Screen

open Screen

/-- What is seen: the cells of each row, the rows marked as selected, and the cursor. A cell
behind a wide character is empty. -/
structure Screen where
  cells : List (List Text)
  marked : List Nat := []
  cursor : Option (Nat × Nat) := none
  deriving DecidableEq

namespace Screen

/-- The text in a row of an area. -/
def textIn (screen : Screen) (area : Area) (j : Nat) : Text :=
  (((screen.cells[area.top + j]?.getD []).drop area.left).take area.width).flatten

/-- How many rows an area is to get. -/
inductive Rows where
  | exactly (n : Nat)
  | atLeast (n : Nat)

end Screen

structure Toolkit where
  /-- Three areas one below the other. -/
  stack : Area → Rows → Rows → Rows → Area × Area × Area
  /-- What a border leaves of an area. -/
  inside : Area → Area
  /-- A line of a list in so many columns, filled up with blanks. -/
  line : Nat → List Span → Text
  /-- What is seen of a picture on a screen of so many columns and rows. -/
  render : Nat → Nat → Picture → Screen

namespace Screen

/-- The first row shown of a list, `h` rows from `offset` on, moved just enough to hold row
`s`. -/
def topRow (h offset s : Nat) : Nat := max (min offset s) (s + 1 - h)

end Screen

namespace Toolkit

/-- Areas that share an area go from side to side, each below the one before, and get the rows
they ask for where there are as many; the last one gets what is left. A border takes the cells at
the edges. -/
structure Divides (t : Toolkit) : Prop where
  stack_sides : ∀ (area : Area) (a b c : Rows),
    let (x, y, z) := t.stack area a b c
    ∀ part ∈ [x, y, z], part.left = area.left ∧ part.width = area.width
  stack_below : ∀ (area : Area) (a b c : Rows),
    let (x, y, z) := t.stack area a b c
    x.top + x.height ≤ z.top ∧ y.top + y.height ≤ z.top ∧
      z.top + z.height ≤ area.top + area.height
  stack_rows : ∀ (area : Area) (a b c : Nat), a + b + c ≤ area.height →
    let (x, y, z) := t.stack area (.exactly a) (.exactly b) (.atLeast c)
    (x.top, x.height) = (area.top, a) ∧ (y.top, y.height) = (area.top + a, b) ∧
      (z.top, z.height) = (area.top + a + b, area.height - a - b)
  inside_sides : ∀ area : Area, 2 ≤ area.width →
    (t.inside area).left = area.left + 1 ∧ (t.inside area).width = area.width - 2
  inside_rows : ∀ area : Area, 2 ≤ area.height →
    (t.inside area).top = area.top + 1 ∧ (t.inside area).height = area.height - 2

/-- A list below other panes shows its items from its offset on, moved just enough to show the
selected one, and marks that one only, if there are columns for it. -/
def ShowsLists (t : Toolkit) : Prop :=
  ∀ (w h : Nat) (panes : List Pane) (cursor : Option (Nat × Nat)) (area : Area) (border : Border)
    (items : List (List Span)) (selected offset : Nat),
    (∀ pane ∈ panes, pane.Above w area) →
    area.left + area.width ≤ w → area.top + area.height ≤ h →
    selected < items.length → offset < items.length → 0 < (t.inside area).height →
    let inner := t.inside area
    let first := topRow inner.height offset selected
    let list : Pane := ⟨area, some border, .list items (some selected) offset⟩
    let screen := t.render w h { panes := panes ++ [list], cursor }
    (∀ j < inner.height,
      screen.textIn inner j = t.line inner.width (items[first + j]?.getD [])) ∧
    (0 < inner.width → screen.marked = [inner.top + (selected - first)])

/-- Plain text is shown as it is, one span behind the other, and cut off where the columns
end. -/
structure ShowsText (t : Toolkit) : Prop where
  line_nil : ∀ w, t.line w [] = blankText w
  line_cons : ∀ (w : Nat) (span : Span) (rest : List Span), Text.Plain span.text →
    t.line w (span :: rest) = span.text.take w ++ t.line (w - span.text.length) rest

/-- All of a line is shown: in more columns there is nothing more of it. -/
def ShownWhole (t : Toolkit) (w : Nat) (line : List Span) : Prop :=
  ∀ extra, t.line (w + extra) line = t.line w line ++ blankText extra

/-- Lines that are wide enough to fit are not cut off. -/
def ShowsWhole (t : Toolkit) (m : Measure) : Prop :=
  ∀ (w : Nat) (line : List Span), m.width (lineText line) ≤ w → t.ShownWhole w line

variable {t : Toolkit}

theorem ShowsText.line_of_plain (ht : t.ShowsText) {line : List Span}
    (h : Text.Plain (lineText line)) (w : Nat) :
    t.line w line = (lineText line ++ blankText w).take w := by
  induction line generalizing w with
  | nil =>
    rw [ht.line_nil, lineText, List.flatMap_nil, List.nil_append, blankText, List.take_replicate,
      Nat.min_self]
  | cons span line ih =>
    rw [lineText_cons] at h ⊢
    obtain ⟨hspan, hline⟩ := List.forall_mem_append.mp h
    rw [ht.line_cons w span line hspan, ih hline, List.append_assoc, List.take_append]
    rw [List.take_append, List.take_append, blankText, blankText, List.take_replicate,
      List.take_replicate]
    congr 3
    omega

end Toolkit

end Calculator
