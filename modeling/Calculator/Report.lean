import Calculator.History
import Calculator.Token.Spaced

/-!
# Shown calculations

The texts in which an entry of the history is shown: its label and summary, its
postfix form, its steps and its time.
-/

namespace Calculator

/-- A numbered step; the first has index 0. -/
def Step.numbered (step : Step) (i : Nat) : Text :=
  "Step ".toList ++ Text.ofNat (i + 1) ++ ": ".toList ++ step.operation ++ " = ".toList ++
    Decimal.display step.result

def postfixLine (rendered : Text) : Text := "RPN: ".toList ++ rendered

namespace Entry

def label (id : Nat) : Text := '#' :: Text.ofNat id

def outcomeText (entry : Entry) : Text :=
  match entry.outcome with
  | .ok x => Decimal.display x
  | .error e => "Error: ".toList ++ e.message

def summary (entry : Entry) : Text :=
  label entry.id ++ [' '] ++ Token.spaced entry.expression ++ " = ".toList ++ entry.outcomeText

/-- The time the calculation took, in milliseconds. Seconds and the rest are two doubles. -/
def milliseconds (entry : Entry) : Float :=
  let perSecond := Decimal.pow10 9
  (Float.ofNat (entry.nanos / perSecond) +
    Float.ofNat (entry.nanos % perSecond) / Float.ofNat perSecond) * 1000

def timeLine (entry : Entry) : Text :=
  "Time: ".toList ++ Decimal.toPlaces entry.milliseconds ++ " ms".toList

end Entry

/-- An error and its causes, outermost first, as shown to the user. -/
def causesReport : List Text → Text
  | [] => []
  | [error] => "Error: ".toList ++ error
  | error :: causes =>
    "Error: ".toList ++ error ++ "\n\nCaused by:".toList ++
      causes.flatMap fun cause => "\n    ".toList ++ cause

/-- The answer to a deletion: which entry went, if there was one. -/
def deletionMessage (id : Nat) : Option Entry → Text
  | some entry =>
    "Deleted ".toList ++ Entry.label id ++ " (".toList ++ entry.expression ++ [')']
  | none => "No calculation ".toList ++ Entry.label id

end Calculator
