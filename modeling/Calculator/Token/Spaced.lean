import Calculator.Token.Scan

/-!
# Evenly spaced expressions

An expression is shown with a space on both sides of every operator and none
elsewhere. What cannot be read is shown as it was typed, with single spaces
between its words.
-/

namespace Calculator.Token

/-- A token with the spaces around it. -/
def spacedText : Token → Text
  | .operator op => [' ', op.symbol, ' ']
  | t => t.text

def spaced (expression : Text) : Text :=
  match scan expression with
  | .ok ts => ts.flatMap spacedText
  | .error _ => [' '].intercalate (Text.words expression)

end Calculator.Token
