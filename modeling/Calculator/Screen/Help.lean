import Calculator.Screen.Toolkit

/-!
# The help screen

A page of text that fills the screen and can be scrolled.
-/

namespace Calculator.Screen

def helpLines : List Text :=
  (["ShuntCalc - Terminal Expression Calculator",
    "",
    "Operators (highest precedence last):",
    "  + : Addition        (e.g., 5 + 3 = 8)",
    "  - : Subtraction     (e.g., 10 - 4 = 6)",
    "  * : Multiplication  (e.g., 6 * 7 = 42)",
    "  / : Division        (e.g., 15 / 3 = 5)",
    "  ^ : Exponentiation  (e.g., 2 ^ 3 ^ 2 = 512, groups right to left)",
    "",
    "Numbers:",
    "  Decimal literals: 42, 2.5, .5",
    "  Negative literals after an operator or '(': 2 * -3, 5 * (-2)",
    "",
    "Functions:",
    "  sqrt(x) : Square root (x >= 0)",
    "",
    "Commands:",
    "  details <expression> : Show postfix form, steps and time",
    "  delete <id>          : Remove one calculation from history",
    "  clear                : Clear calculation history",
    "  help                 : Show this help screen",
    "  quit                 : Exit the calculator",
    "  Ctrl+U               : Clear current input",
    "  Ctrl+C               : Exit without typing quit",
    "",
    "Navigation:",
    "  ← → : Move cursor left/right",
    "  Ctrl+←/→ : Move cursor by words",
    "  Home/End : Move to start/end of line",
    "  ↑ ↓ : Navigate calculation history",
    "  PgUp/PgDn : Page through history",
    "  Mouse wheel : Scroll through history",
    "",
    "Examples:",
    "  2 + 4 * 6",
    "  sqrt(9 + 16)",
    "  details sqrt((((9*9)/12)+(13-4))*2)^2",
    "  1 + 2 + 3 + 4 * 5 * 6 - 7 - 8 / 9"] : List String).map String.toList

def helpPicture (w h scroll : Nat) : Picture where
  panes :=
    [{ area := ⟨0, 0, w, h⟩
       border := some { title := " ShuntCalc Help ".toList, centred := true }
       content := .page helpLines (scroll % positionBound) }]

end Calculator.Screen
