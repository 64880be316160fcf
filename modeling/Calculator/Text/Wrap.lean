import Calculator.Text.Blank
import Calculator.Text.Measure

/-!
# Wrapped text

`wrap? m w cs` breaks a text into lines of at most `w` columns, filling each line with
as many words as fit. A word wider than a line stands alone, cut into pieces whose
characters are counted in East Asian context. Where such a word holds a character
wider than a line there is no answer.
-/

namespace Calculator.Text

variable (m : Measure)

/-- The characters at the start that fit into `room` columns, and the others. -/
def splitFitting (room : Nat) : Text → Text × Text
  | [] => ([], [])
  | c :: cs =>
    if m.columnsEastAsian c ≤ room then
      let cut := splitFitting (room - m.columnsEastAsian c) cs
      (c :: cut.1, cut.2)
    else ([], c :: cs)

theorem length_splitFitting (room : Nat) (cs : Text) :
    (splitFitting m room cs).1.length + (splitFitting m room cs).2.length = cs.length := by
  induction cs generalizing room with
  | nil => rfl
  | cons c cs ih =>
    unfold splitFitting
    split
    · simp only [List.length_cons]
      have := ih (room - m.columnsEastAsian c)
      omega
    · simp

/-- A word cut into pieces of at most `w` columns. -/
def pieces? (w : Nat) : Text → Option (List Text)
  | [] => some []
  | c :: cs =>
    if m.columnsEastAsian c ≤ w then
      have := length_splitFitting m (w - m.columnsEastAsian c) cs
      let cut := splitFitting m (w - m.columnsEastAsian c) cs
      (pieces? w cut.2).map ((c :: cut.1) :: ·)
    else none
termination_by cs => cs.length

def closeLine (line : Text) : List Text := if line = [] then [] else [line]

/-- Breaks words into lines, behind the words already on a line. They have used up so many
columns of it. -/
def wrapWords? (w : Nat) (line : Text) (used : Nat) : List Text → Option (List Text)
  | [] => some (closeLine line)
  | word :: rest =>
    if w < m.width word then do
      let pieces ← pieces? m w word
      let lines ← wrapWords? w [] 0 rest
      some (closeLine line ++ pieces ++ lines)
    else if line = [] then wrapWords? w word (m.width word) rest
    else if w < used + m.width word + 1 then
      (wrapWords? w word (m.width word) rest).map (line :: ·)
    else wrapWords? w (line ++ ' ' :: word) (used + 1 + m.width word) rest

/-- The lines of a text; one empty line where there are no columns. -/
def wrap? (w : Nat) (cs : Text) : Option (List Text) :=
  if w = 0 then some [[]] else wrapWords? m w [] 0 (words cs)

end Calculator.Text
