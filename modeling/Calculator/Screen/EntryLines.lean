import Calculator.Report
import Calculator.Screen.Highlight
import Calculator.Text.Wrap

/-!
# Entries on the screen

The lines of one calculation: its id and its expression, wrapped, then the value or
the error; in detailed mode also the postfix form, the steps and the time, indented
and wrapped. There is no answer where some text cannot be wrapped.
-/

namespace Calculator.Screen

variable (m : Measure)

def detailIndent : Nat := 4

/-- One line of the expression behind its label, or below it. -/
def expressionLine (label : Text) (style : Style) (i : Nat) (chunk : Text) : List Span :=
  (if i = 0 then ⟨label, dim⟩ else ⟨blankText label.length, {}⟩) :: highlight style chunk

def outcomeSpans (entry : Entry) : List Span :=
  let style : Style :=
    match entry.outcome with
    | .ok _ => .strong .lightMagenta
    | .error _ => .strong .red
  [⟨" = ".toList, .of .grey⟩, ⟨entry.outcomeText, style⟩]

def appendToLast (spans : List Span) : List (List Span) → List (List Span)
  | [] => []
  | [line] => [line ++ spans]
  | line :: rest => line :: appendToLast spans rest

def headLines? (entry : Entry) (w : Nat) (selected : Bool) : Option (List (List Span)) := do
  let style : Style := .of (if selected then .yellow else .cyan)
  let label := Entry.label entry.id ++ [' ']
  let chunks ← Text.wrap? m (w - label.length) (Token.spaced entry.expression)
  let chunks := if chunks = [] then [[]] else chunks
  some (appendToLast (outcomeSpans entry) (chunks.mapIdx (expressionLine label style)))

/-- What detailed mode shows, before it is wrapped. -/
def details (entry : Entry) : List (Text × Colour) :=
  (entry.postfixText.toList.map fun t => (postfixLine t, .blue)) ++
    (entry.steps.mapIdx fun i s => (s.numbered i, .darkGrey)) ++
    [(entry.timeLine, .magenta)]

def detailLines? (w : Nat) (detail : Text × Colour) : Option (List (List Span)) :=
  (Text.wrap? m (w - detailIndent) detail.1).map fun chunks =>
    chunks.map fun chunk => [⟨blankText detailIndent ++ chunk, .of detail.2⟩]

/-- All lines of an entry in `w` columns. -/
def entryLines? (entry : Entry) (w : Nat) (selected : Bool) : Option (List (List Span)) := do
  let head ← headLines? m entry w selected
  if entry.detailed then
    let rest ← (details entry).mapM (detailLines? m w)
    some (head ++ rest.flatten)
  else some head

end Calculator.Screen
