import Fluxion.Calculation
import Fluxion.Prompt

/-!
# Calculations at a console

A console has lines of input that nobody has read yet, an output, and a second
output for complaints. Questions of a calculation are answered from the lines:
those that stand for no number are used up with a complaint, and when none is
left the question is declined.

`Console.run` is a whole run: what is left on both outputs, and the exit code.
-/

namespace Fluxion

/-- The state of a console. -/
structure Console where
  /-- The lines not read yet. -/
  input : List (List Char)
  /-- What has been written so far. -/
  output : String
  /-- The lines written to the second output so far. -/
  complaints : List String
  deriving DecidableEq, Repr

namespace Console

/-- The lines of a text, without the line feed, or carriage return and line
feed, that ends them. A last line need not be ended. -/
def linesOf : List Char → List (List Char)
  | [] => []
  | c :: rest =>
    if c = '\n' then [] :: linesOf rest
    else if c = '\r' ∧ rest.head? = some '\n' then linesOf rest
    else
      match linesOf rest with
      | [] => [[c]]
      | line :: lines => (c :: line) :: lines

/-- Writes to the output. -/
def write (text : String) (console : Console) : Console :=
  { console with output := console.output ++ text }

/-- Asks for the value of a name, reading from the given lines. Every line
read is preceded by the question. -/
def askReading (name : String) (console : Console) : List (List Char) → Option Float × Console
  | [] => (none, { console.write (Prompt.question name) with input := [] })
  | line :: rest =>
    let asked := console.write (Prompt.question name)
    match Prompt.value? line with
    | some value => (some value, { asked with input := rest })
    | none =>
      askReading name
        { asked with complaints := asked.complaints ++ [Prompt.complaint line] } rest

/-- Asks for the value of a name. -/
def ask (name : String) (console : Console) : Option Float × Console :=
  askReading name console console.input

/-- Holds a dialogue at the console. -/
def hold (d : Dialogue α) : StateM Console α :=
  d.play (fun text => modify (write text)) (fun name => modifyGet (ask name))

/-- What a run leaves behind. -/
structure Transcript where
  /-- The output. -/
  output : String
  /-- The lines of the second output. -/
  complaints : List String
  /-- Zero for success. -/
  exitCode : Nat
  deriving DecidableEq, Repr

/-- The line that reports a failure. -/
def failureLine (failure : Failure) : String :=
  "Error: " ++ failure.explanation.message

/-- A whole run on a source, with the given text to read from. -/
def run (source input : List Char) : Transcript :=
  let (outcome, console) := (hold (Calculation.run ∅ source)).run ⟨linesOf input, "", []⟩
  match outcome with
  | .ok () => ⟨console.output, console.complaints, 0⟩
  | .error failure => ⟨console.output, console.complaints ++ [failureLine failure], 1⟩

end Console

end Fluxion
