import Calculator.Token.Scan

/-!
# Lexemes

What a token looks like in an expression without blanks, said without a scanner.
`Lexeme awaiting lex t rest` says that `lex`, in front of `rest`, is the text of the
token `t`: names and numerals reach as far as they can, and a minus is a sign exactly
where an operand is awaited. `Reads` joins lexemes to the front of a text, and `Fault`
says what is wrong where no lexeme stands.
-/

namespace Calculator.Token

open Decimal

/-- Whether no character of the class comes next. -/
def Stops (p : Char → Bool) (rest : Text) : Prop := ∀ c ∈ rest.head?, p c = false

/-- A run of digits and points with a digit and at most one point. -/
def IsNumeral (run : Text) : Prop :=
  run.all isNumeralChar ∧ run.any Char.isDigit ∧ run.count '.' ≤ 1

inductive Lexeme (awaiting : Bool) : Text → Token → Text → Prop where
  | opening (rest : Text) : Lexeme awaiting ['('] .opening rest
  | closing (rest : Text) : Lexeme awaiting [')'] .closing rest
  | operator (op : Operator) (rest : Text) (h : op = .sub → awaiting = false) :
      Lexeme awaiting [op.symbol] (.operator op) rest
  | function (f : Function) {rest : Text} (h : Stops Char.isAlpha rest) :
      Lexeme awaiting f.name (.function f) rest
  | number {run rest : Text} {x : Float} (h : IsNumeral run) (hs : Stops isNumeralChar rest)
      (hx : readDouble? false run = some x) : Lexeme awaiting run (.number x) rest
  | negative {run rest : Text} {x : Float} (ha : awaiting = true) (h : IsNumeral run)
      (hs : Stops isNumeralChar rest) (hx : readDouble? true run = some x) :
      Lexeme awaiting ('-' :: run) (.number x) rest

/-- The text is the lexemes of the pieces, one after the other, in front of `rest`. -/
inductive Reads (rest : Text) : Bool → Text → List (Text × Token) → Prop where
  | done (awaiting : Bool) : Reads rest awaiting rest []
  | cons {awaiting : Bool} {lex more : Text} {t : Token} {pieces : List (Text × Token)} :
      Lexeme awaiting lex t more → Reads rest t.awaitsOperand more pieces →
        Reads rest awaiting (lex ++ more) ((lex, t) :: pieces)

/-- Whether an operand is awaited behind the pieces, given whether one is before them. -/
def awaitingAfter (awaiting : Bool) (pieces : List (Text × Token)) : Bool :=
  (pieces.getLast?.map (·.2.awaitsOperand)).getD awaiting

/-- What is wrong at the front of a text that starts with no lexeme. -/
inductive Fault (awaiting : Bool) : Text → EvalError → Prop where
  | sign {rest : Text} (ha : awaiting = true) (hs : Stops isNumeralChar rest) :
      Fault awaiting ('-' :: rest) .strayNegativeSign
  | negative {run rest : Text} (ha : awaiting = true) (hne : run ≠ [])
      (hr : run.all isNumeralChar) (h : ¬ IsNumeral run) (hs : Stops isNumeralChar rest) :
      Fault awaiting ('-' :: run ++ rest) (.malformedNumber ('-' :: run))
  | number {run rest : Text} (hne : run ≠ []) (hr : run.all isNumeralChar) (h : ¬ IsNumeral run)
      (hs : Stops isNumeralChar rest) : Fault awaiting (run ++ rest) (.malformedNumber run)
  | name {run rest : Text} (hne : run ≠ []) (hr : run.all Char.isAlpha)
      (h : ∀ f : Function, f.name ≠ run) (hs : Stops Char.isAlpha rest) :
      Fault awaiting (run ++ rest) (.unknownFunction run)
  | character {c : Char} {rest : Text} (hn : isNumeralChar c = false) (ha : c.isAlpha = false)
      (hp : c ≠ '(' ∧ c ≠ ')') (h : ∀ op : Operator, op.symbol ≠ c) :
      Fault awaiting (c :: rest) (.invalidCharacter c)

end Calculator.Token
