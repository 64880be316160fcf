import Calculator.Text.Basic

/-!
# Styled text

A line on the screen is a list of spans, each with a colour and a weight.
-/

namespace Calculator.Screen

inductive Colour where
  | red | green | yellow | blue | magenta | cyan | grey | darkGrey
  | lightGreen | lightBlue | lightMagenta
  deriving DecidableEq, Repr

structure Style where
  colour : Option Colour := none
  bold : Bool := false
  deriving DecidableEq, Repr

def Style.of (colour : Colour) : Style := { colour := some colour }

def Style.strong (colour : Colour) : Style := { colour := some colour, bold := true }

structure Span where
  text : Text
  style : Style := {}
  deriving DecidableEq, Repr

def lineText (line : List Span) : Text := line.flatMap (·.text)

theorem lineText_cons (span : Span) (line : List Span) :
    lineText (span :: line) = span.text ++ lineText line := List.flatMap_cons

theorem lineText_append (line spans : List Span) :
    lineText (line ++ spans) = lineText line ++ lineText spans := List.flatMap_append

/-- The style of borders and labels. -/
def dim : Style := .of .darkGrey

def blankText (n : Nat) : Text := List.replicate n ' '

end Calculator.Screen
