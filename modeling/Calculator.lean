import Calculator.Main
import Calculator.Proofs.App.Bounds
import Calculator.Proofs.Console.Bounds
import Calculator.Proofs.Console.Listing
import Calculator.Proofs.Console.Typing
import Calculator.Proofs.Editing.Gap
import Calculator.Proofs.Expr.InfixOrder
import Calculator.Proofs.FrontEnds
import Calculator.Proofs.History.Log
import Calculator.Proofs.Postfix.Malformed
import Calculator.Proofs.Screen.Content
import Calculator.Proofs.Screen.CursorColumn
import Calculator.Proofs.Screen.ListView
import Calculator.Proofs.Token.Respacing
import Calculator.Proofs.Postfix.Placement
import Calculator.Proofs.Postfix.Grouping
import Calculator.Proofs.Postfix.Tracing
import Calculator.Proofs.Decimal.Display
import Calculator.Proofs.Text.FewestLines
import Calculator.Proofs.Text.Passes
import Calculator.Proofs.Command.Reading
import Calculator.Proofs.Screen.Highlighting
import Calculator.Proofs.Screen.NewestEntry
import Calculator.Proofs.Screen.EntryWidth
import Calculator.Proofs.App.InputScroll
import Calculator.Proofs.App.WordMoves
import Calculator.Proofs.App.Deletion
import Calculator.Proofs.Console.Recall
import Calculator.Proofs.CommandLine.Splitting
import Calculator.Proofs.Token.Rendering
import Calculator.Proofs.App.Frame
