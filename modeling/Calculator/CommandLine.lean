import Calculator.Report

/-!
# The command line

The arguments of one call: the words of an expression and, anywhere among them,
`--details`. Without an expression the calculator is interactive.
-/

namespace Calculator.CommandLine

structure Job where
  expression : Text
  detailed : Bool
  deriving DecidableEq

def detailsFlag : Text := "--details".toList

/-- The job that the arguments describe, if they hold an expression. -/
def Job.ofArgs? (args : List Text) : Option Job :=
  match args.filter (· != detailsFlag) with
  | [] => none
  | words => some ⟨[' '].intercalate words, args.contains detailsFlag⟩

structure JobError where
  expression : Text
  error : EvalError
  deriving DecidableEq

/-- The error and what led to it, outermost first. -/
def JobError.causes (e : JobError) : List Text :=
  ["could not evaluate '".toList ++ e.expression ++ ['\''], e.error.message]

def resultLines (expression : Text) (x : Float) (trace : Trace) : List Text :=
  (Token.spaced expression ++ " = ".toList ++ Decimal.display x) ::
    (trace.postfixText.toList.map fun t => "  ".toList ++ postfixLine t) ++
    trace.steps.mapIdx fun i s => "  ".toList ++ s.numbered i

/-- The lines printed for a job. Nothing is printed for one that fails. -/
def Job.run (job : Job) : Except JobError (List Text) :=
  match calculateTraced job.expression { detailed := job.detailed } with
  | (.ok x, trace) => .ok (resultLines job.expression x trace)
  | (.error e, _) => .error ⟨job.expression, e⟩

/-! ## Printing -/

/-- A program that prints lines and may fail. What it has printed stays printed. -/
abbrev Printing := ExceptT JobError (StateM (List Text))

def Printing.line (cs : Text) : Printing Unit := modifyThe (List Text) (· ++ [cs])

/-- Calculates the expression of a job, then prints its value and what the trace holds. -/
def Job.perform (job : Job) : Printing Unit := do
  let (outcome, trace) := calculateTraced job.expression { detailed := job.detailed }
  match outcome with
  | .error e => throw ⟨job.expression, e⟩
  | .ok x =>
    Printing.line (Token.spaced job.expression ++ " = ".toList ++ Decimal.display x)
    trace.postfixText.toList.forM fun rendered =>
      Printing.line ("  ".toList ++ postfixLine rendered)
    trace.steps.zipIdx.forM fun (step, i) => Printing.line ("  ".toList ++ step.numbered i)

/-- How a job ends, and the lines it has printed by then. -/
def Job.outcome (job : Job) : Except JobError Unit × List Text := job.perform.run.run []

end Calculator.CommandLine
