import Fluxion.Console

/-!
# The command line

One argument, the expression. The calculation is held at the terminal: what it
says is printed, and its questions are put on the screen and answered by the
lines typed.
-/

namespace Fluxion.Terminal

/-- Writes to the standard output at once. -/
def write (text : String) : IO Unit := do
  let output ← IO.getStdout
  output.putStr text
  output.flush

/-- Asks until a line stands for a number or the input ends. -/
partial def ask (name : String) : IO (Option Float) := do
  write (Prompt.question name)
  let line ← (← IO.getStdin).getLine
  if line.isEmpty then return none
  match Prompt.value? line.toList with
  | some value => return some value
  | none =>
    IO.eprintln (Prompt.complaint line.toList)
    ask name

/-- Calculates at the terminal and answers with the exit code. -/
def calculate (source : String) : IO UInt32 := do
  match ← (Calculation.run ∅ source.toList).play write ask with
  | .ok () => return 0
  | .error failure =>
    IO.eprintln (Console.failureLine failure)
    return 1

end Fluxion.Terminal

/-- Expects the expression, which `--` may precede. -/
def main (arguments : List String) : IO UInt32 := do
  match arguments with
  | ["--", source] | [source] => Fluxion.Terminal.calculate source
  | _ =>
    IO.eprintln "expected one argument: an expression without whitespace, such as x^2+sin(x)"
    return 2
