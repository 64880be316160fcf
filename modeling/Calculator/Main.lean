import Calculator.CommandLine
import Calculator.Console.Run

/-!
# The program

With an expression among its arguments the program prints the result and ends; a
failure goes to the error output. Without one it runs the console on the keys that its
input holds.
-/

namespace Calculator

def put (out : IO.FS.Stream) (cs : Text) : IO Unit := do
  out.putStr (String.ofList cs)
  out.flush

def fail (causes : List Text) : IO UInt32 := do
  put (← IO.getStderr) (causesReport causes ++ ['\n'])
  return 1

def runJob (job : CommandLine.Job) : IO UInt32 := do
  let (ending, lines) := job.outcome
  put (← IO.getStdout) (lines.flatMap (· ++ ['\n']))
  match ending with
  | .ok () => return 0
  | .error e => fail e.causes

/-- The press that a terminal in raw mode sends as one character. -/
def Press.ofChar (c : Char) : Press :=
  if c = '\r' ∨ c = '\n' then { key := .enter }
  else if c = '\t' then { key := .tab }
  else if c.toNat = 0x7F then { key := .backspace }
  else if c.toNat < 0x20 then { key := .char (Char.ofNat (c.toNat + 0x60)), ctrl := true }
  else { key := .char c }

/-- All characters that are left. -/
partial def readAll (input : IO.FS.Stream) : IO Text := do
  let line ← input.getLine
  if line.isEmpty then return []
  return line.toList ++ (← readAll input)

/-- Runs the console. There is no terminal to refuse raw mode, and nothing is timed. -/
def runConsole : IO UInt32 := do
  let keys := (← readAll (← IO.getStdin)).map Press.ofChar
  let (transcript, error) := Console.run (fun _ => 0) none [] keys
  put (← IO.getStdout) (transcript.written.flatMap Console.Output.chars)
  match error with
  | none => return 0
  | some e => fail e.causes

end Calculator

def main (args : List String) : IO UInt32 :=
  match Calculator.CommandLine.Job.ofArgs? (args.map String.toList) with
  | some job => Calculator.runJob job
  | none => Calculator.runConsole
