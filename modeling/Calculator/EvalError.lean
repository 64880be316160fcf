import Calculator.Text.Basic

/-!
# Errors of an expression

Everything that can be wrong with an expression, and the message shown for it. Two
computations in a row have an answer when each has one; else the first error is theirs.
-/

namespace Calculator

inductive EvalError where
  | emptyExpression
  | invalidCharacter (c : Char)
  | malformedNumber (text : Text)
  | unknownFunction (name : Text)
  | strayNegativeSign
  | mismatchedParenthesis
  | malformedExpression
  | negativeSquareRoot
  | divisionByZero
  deriving DecidableEq, Repr

def EvalError.message : EvalError → Text
  | emptyExpression => "Expression cannot be empty".toList
  | invalidCharacter c => "Invalid character found in expression: '".toList ++ [c, '\'']
  | malformedNumber text => "Malformed number: '".toList ++ text ++ ['\'']
  | unknownFunction name => "Unknown function: '".toList ++ name ++ ['\'']
  | strayNegativeSign => "Invalid expression: stray negative sign".toList
  | mismatchedParenthesis => "Mismatched parenthesis".toList
  | malformedExpression => "Invalid expression format".toList
  | negativeSquareRoot => "Square root of negative number is not allowed".toList
  | divisionByZero => "Division by zero is not allowed".toList

/-! ## Computations in a row -/

namespace EvalError

variable {α β : Type} {r : Except EvalError α} {b : β}

theorem bind_eq_ok {f : α → Except EvalError β} :
    (r >>= f) = .ok b ↔ ∃ a, r = .ok a ∧ f a = .ok b := by
  cases r <;> simp [bind, Except.bind]

theorem bind_eq_error {f : α → Except EvalError β} {err : EvalError} :
    (r >>= f) = .error err ↔ r = .error err ∨ ∃ a, r = .ok a ∧ f a = .error err := by
  cases r <;> simp [bind, Except.bind]

theorem map_eq_ok {f : α → β} : r.map f = .ok b ↔ ∃ a, r = .ok a ∧ f a = b := by
  cases r <;> simp [Except.map]

theorem map_eq_error {f : α → β} {err : EvalError} : r.map f = .error err ↔ r = .error err := by
  cases r <;> simp [Except.map]

theorem of_foldlM_error {f : β → α → Except EvalError β} {p : EvalError → Prop}
    (hf : ∀ {b a err}, f b a = .error err → p err) {as : List α} {err : EvalError}
    (h : as.foldlM f b = .error err) : p err := by
  induction as generalizing b with
  | nil => cases h
  | cons a as ih =>
    rcases bind_eq_error.mp h with h | ⟨b', -, h⟩
    · exact hf h
    · exact ih h

end EvalError

end Calculator
