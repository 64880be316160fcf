import Calculator.Token
import Calculator.Text.Blank

/-!
# Reading tokens

`scan` splits an expression into tokens after dropping its ASCII blanks, so
`1 000` is one number. `lexeme` reads one token: the longest run of digits and
points, the longest run of letters, or a single character. A minus belongs to the
number behind it where an operand is awaited.
-/

namespace Calculator.Token

open Decimal

def ofNumeral (negative : Bool) (run : Text) : Except EvalError Token :=
  match readDouble? negative run with
  | some x => .ok (.number x)
  | none => .error (.malformedNumber (signText negative ++ run))

/-- The number made of `front` and the longest run of digits and points in `cs`. -/
def numeral (negative : Bool) (front cs : Text) : Except EvalError (Token × Text) :=
  (ofNumeral negative (front ++ cs.takeWhile isNumeralChar)).map (·, cs.dropWhile isNumeralChar)

/-- The function named by `c` and the longest run of letters in `cs`. -/
def word (c : Char) (cs : Text) : Except EvalError (Token × Text) :=
  match Function.ofName? (c :: cs.takeWhile Char.isAlpha) with
  | some f => .ok (.function f, cs.dropWhile Char.isAlpha)
  | none => .error (.unknownFunction (c :: cs.takeWhile Char.isAlpha))

/-- The token that starts with `c`, and what follows it. -/
def lexeme (awaiting : Bool) (c : Char) (cs : Text) : Except EvalError (Token × Text) :=
  if c = '(' then .ok (.opening, cs)
  else if c = ')' then .ok (.closing, cs)
  else if c = '-' ∧ awaiting = true then
    if cs.takeWhile isNumeralChar = [] then .error .strayNegativeSign
    else numeral true [] cs
  else if isNumeralChar c then numeral false [c] cs
  else if c.isAlpha then word c cs
  else
    match Operator.ofSymbol? c with
    | some op => .ok (.operator op, cs)
    | none => .error (.invalidCharacter c)

theorem numeral_rest {negative : Bool} {front cs rest : Text} {t : Token}
    (h : numeral negative front cs = .ok (t, rest)) : rest = cs.dropWhile isNumeralChar := by
  unfold numeral at h
  cases hn : ofNumeral negative (front ++ cs.takeWhile isNumeralChar) with
  | error e => rw [hn] at h; cases h
  | ok t' => rw [hn] at h; cases h; rfl

theorem word_rest {c : Char} {cs rest : Text} {t : Token} (h : word c cs = .ok (t, rest)) :
    rest = cs.dropWhile Char.isAlpha := by
  unfold word at h
  split at h <;> cases h
  rfl

theorem length_rest_le {awaiting : Bool} {c : Char} {cs rest : Text} {t : Token}
    (h : lexeme awaiting c cs = .ok (t, rest)) : rest.length ≤ cs.length := by
  unfold lexeme at h
  split at h
  · cases h; exact Nat.le_refl _
  split at h
  · cases h; exact Nat.le_refl _
  split at h
  · split at h
    · cases h
    · rw [numeral_rest h]; exact Text.length_dropWhile_le _ _
  split at h
  · rw [numeral_rest h]; exact Text.length_dropWhile_le _ _
  split at h
  · rw [word_rest h]; exact Text.length_dropWhile_le _ _
  split at h <;> cases h
  exact Nat.le_refl _

/-- The tokens of a text without blanks. -/
def scanFrom (awaiting : Bool) : Text → Except EvalError (List Token)
  | [] => .ok []
  | c :: cs =>
    match h : lexeme awaiting c cs with
    | .error e => .error e
    | .ok (t, rest) =>
      have := length_rest_le h
      (scanFrom t.awaitsOperand rest).map (t :: ·)
termination_by cs => cs.length

def scan (expression : Text) : Except EvalError (List Token) :=
  match expression.filter (!Text.isAsciiBlank ·) with
  | [] => .error .emptyExpression
  | c :: cs => scanFrom true (c :: cs)

end Calculator.Token
