import Calculator.Text.Blank
import Calculator.Text.LowerCase

/-!
# Commands

What an input line asks for. Command words are read in any case. A line that is
no command is an expression, and `details` before or after it asks for the steps.
-/

namespace Calculator

/-- Why a line cannot be carried out. -/
inductive CommandError where
  | missingExpression
  | deleteUsage
  | notAnId (text : Text)
  deriving DecidableEq, Repr

def CommandError.message : CommandError → Text
  | missingExpression => "Please enter a valid expression after 'details'".toList
  | deleteUsage => "Usage: delete <id>".toList
  | notAnId text => "Not a calculation id: '".toList ++ text ++ ['\'']

inductive Command where
  | quit
  | clear
  | help
  | history
  | delete (id : Nat)
  | evaluate (expression : Text) (detailed : Bool)
  | invalid (error : CommandError)
  deriving DecidableEq, Repr

namespace Command

/-- The command of a line that is one command word, in lower case. -/
def ofWord? (line : Text) : Option Command :=
  if line = "quit".toList ∨ line = "exit".toList ∨ line = "q".toList then some quit
  else if line = "clear".toList ∨ line = "reset".toList then some clear
  else if line = "help".toList then some help
  else if line = "history".toList then some history
  else none

/-- Ids stay below this bound. -/
def idBound : Nat := Nat.pow 2 64

/-- An id: digits, perhaps after one plus sign. -/
def readId? (cs : Text) : Option Nat :=
  let digits := if cs.head? = some '+' then cs.tail else cs
  let id := Nat.ofDigitChars 10 digits 0
  if digits ≠ [] ∧ digits.all Char.isDigit ∧ id < idBound then some id else none

/-- The command of the words after `delete`. -/
def ofDeleteWords : List Text → Command
  | [word] =>
    let id := word.dropWhile (· == '#')
    match readId? id with
    | some n => delete n
    | none => invalid (.notAnId id)
  | _ => invalid .deleteUsage

/-- The command of a line whose first word is `delete` or `del`. -/
def ofDelete? (line : Text) : Option Command :=
  match Text.words line with
  | [] => none
  | first :: rest =>
    if Text.lower first = "delete".toList ∨ Text.lower first = "del".toList then
      some (ofDeleteWords rest)
    else none

def detailsWord : Text := "details".toList

/-- Whether the steps are asked for, and the line without the word that does. -/
def splitDetails (line : Text) : Bool × Text :=
  let low := Text.lower line
  if (detailsWord ++ [' ']).isPrefixOf low ∨ low = detailsWord then
    (true, Text.trim (line.drop detailsWord.length))
  else if (' ' :: detailsWord).isSuffixOf low then
    (true, Text.trim (line.take (line.length - (' ' :: detailsWord).length)))
  else (false, line)

def ofLine (line : Text) : Command :=
  match ofWord? (Text.lower line) with
  | some command => command
  | none =>
    match ofDelete? line with
    | some command => command
    | none =>
      match splitDetails line with
      | (_, []) => invalid .missingExpression
      | (detailed, expression) => evaluate expression detailed

theorem ofWord?_ne_evaluate (line expression : Text) (detailed : Bool) :
    ofWord? line ≠ some (evaluate expression detailed) := by
  unfold ofWord?
  repeat' split
  all_goals nofun

theorem ofDeleteWords_ne_evaluate (words : List Text) (expression : Text) (detailed : Bool) :
    ofDeleteWords words ≠ evaluate expression detailed := by
  unfold ofDeleteWords
  split
  · dsimp only
    split <;> nofun
  · nofun

theorem ofDelete?_ne_evaluate (line expression : Text) (detailed : Bool) :
    ofDelete? line ≠ some (evaluate expression detailed) := by
  unfold ofDelete?
  split
  · nofun
  · split
    · rw [ne_eq, Option.some.injEq]
      exact ofDeleteWords_ne_evaluate _ expression detailed
    · nofun

/-- A line never asks for the value of an empty expression. -/
theorem expression_ne_nil {line expression : Text} {detailed : Bool}
    (h : ofLine line = evaluate expression detailed) : expression ≠ [] := by
  unfold ofLine at h
  split at h
  · rename_i hword
    exact absurd (h ▸ hword) (ofWord?_ne_evaluate _ expression detailed)
  · split at h
    · rename_i hdelete
      exact absurd (h ▸ hdelete) (ofDelete?_ne_evaluate line expression detailed)
    · split at h
      · cases h
      · rename_i hne _
        cases h
        exact hne

end Command

end Calculator
