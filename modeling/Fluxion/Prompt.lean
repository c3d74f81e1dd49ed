import Fluxion.Expr.Evaluate
import Fluxion.Expr.Parse
import Fluxion.Text.Blank

/-!
# The prompt: values typed by a person

A question is put on the screen and a line is read. The line may hold a
literal or an expression of constants, blanks around it aside. A line that
holds neither is complained about and the question put again; the end of the
input declines it.
-/

namespace Fluxion.Prompt

/-- The number a line stands for: that of a literal, else the value of an
expression without variables. -/
def value? (line : List Char) : Option Float :=
  let entry := Text.trim line
  match Number.literal? entry with
  | some value => some value
  | none =>
    match Expr.parse entry with
    | .error _ => none
    | .ok e => e.value.toOption

/-- How the value of a name is asked for. -/
def question (name : String) : String :=
  "Who is " ++ name ++ ": "

/-- What is said about a line that stands for no number. -/
def complaint (line : List Char) : String :=
  "`" ++ String.ofList (Text.trim line) ++ "` is not a number, try again"

end Fluxion.Prompt
