import Calculator.Command
import Calculator.Report

/-!
# Replies

What a line of the console does to the history, and the text written for it. Lines
on the terminal end in a carriage return and a line feed.
-/

namespace Calculator.Console

def lineBreak : Text := ['\r', '\n']

def stepsReport (steps : List Step) : Text :=
  if steps.isEmpty then []
  else
    lineBreak ++ "  Step-by-step evaluation:".toList ++ lineBreak ++
      (steps.mapIdx fun i s => "\r  ".toList ++ s.numbered i ++ lineBreak).flatten

def postfixReport : Option Text → Text
  | some rendered => lineBreak ++ "  ".toList ++ postfixLine rendered ++ lineBreak
  | none => []

def detailsReport (entry : Entry) : Text :=
  postfixReport entry.postfixText ++ stepsReport entry.steps ++
    "\r  ".toList ++ entry.timeLine ++ lineBreak

def entryReport (entry : Entry) : Text :=
  lineBreak ++ "  ".toList ++ entry.summary ++ lineBreak ++
    (if entry.detailed then detailsReport entry else []) ++ lineBreak

/-- The list of all calculations, newest first. -/
def historyReport (history : History) : Text :=
  lineBreak ++
    (if history.isEmpty then "\r  No calculations yet".toList ++ lineBreak else []) ++
    history.latest.flatMap (fun entry => "\r  ".toList ++ entry.summary ++ lineBreak) ++
    lineBreak

def helpReport : Text :=
  lineBreak ++ "  Operators: + - * / ^   Functions: sqrt(x)".toList ++ lineBreak ++
    "\r  Commands: details <expr>, history, delete <id>, clear, quit".toList ++ lineBreak ++
    lineBreak

/-- A message between empty lines. -/
def note (message : Text) : Text := lineBreak ++ message ++ lineBreak ++ lineBreak

/-- What a command leaves: the history, the text written, and whether to go on. -/
structure Reply where
  history : History
  written : Text := []
  goesOn : Bool := true

def reply (clock : Clock) (history : History) : Command → Reply
  | .quit => { history, goesOn := false }
  | .clear => { history := history.clear, written := note "History cleared".toList }
  | .help => { history, written := helpReport }
  | .history => { history, written := historyReport history }
  | .delete id =>
    { history := history.erase id, written := note (deletionMessage id (history.get? id)) }
  | .invalid e => { history, written := note e.message }
  | .evaluate expression detailed =>
    let nanos := history.reading clock
    { history := history.record expression detailed nanos
      written := entryReport (history.next expression detailed nanos) }

/-- The replies to a list of lines, each read as a command. -/
def replies (clock : Clock) (history : History) : List Text → List Reply
  | [] => []
  | line :: rest =>
    let r := reply clock history (Command.ofLine line)
    r :: replies clock r.history rest

end Calculator.Console
