import Calculator.Key

/-!
# Text around a cursor

A line being edited, as the characters before the cursor and those behind it. Every
editing key moves or drops a single character next to the gap.
-/

namespace Calculator.Text

structure Gap where
  /-- The characters before the cursor, nearest first. -/
  before : Text := []
  /-- The characters behind the cursor, nearest first. -/
  behind : Text := []
  deriving DecidableEq, Repr

namespace Gap

def text (g : Gap) : Text := g.before.reverse ++ g.behind

def cursor (g : Gap) : Nat := g.before.length

def insert (g : Gap) (c : Char) : Gap := { g with before := c :: g.before }

def backspace (g : Gap) : Gap := { g with before := g.before.tail }

def delete (g : Gap) : Gap := { g with behind := g.behind.tail }

def left : Gap → Gap
  | ⟨c :: before, behind⟩ => ⟨before, c :: behind⟩
  | g => g

def right : Gap → Gap
  | ⟨before, c :: behind⟩ => ⟨c :: before, behind⟩
  | g => g

def toStart (g : Gap) : Gap := ⟨[], g.text⟩

def toEnd (g : Gap) : Gap := ⟨g.text.reverse, []⟩

/-- The line after an editing key; other keys leave it alone. -/
def edit (g : Gap) : Key → Gap
  | .char c => g.insert c
  | .backspace => g.backspace
  | .delete => g.delete
  | .left => g.left
  | .right => g.right
  | .lineStart => g.toStart
  | .lineEnd => g.toEnd
  | _ => g

end Gap

end Calculator.Text
