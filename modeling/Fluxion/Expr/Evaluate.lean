import Fluxion.Bindings
import Fluxion.Expr.Basic
import Fluxion.Function

/-!
# Evaluation

An expression is evaluated from left to right, asking for every occurrence of
a name that neither is a constant nor is bound. A call is checked, its name
first and its number of arguments second, before any of its arguments is
looked at, so a call that cannot succeed asks no questions.

Evaluation is a dialogue; with nobody to ask it is a plain function, `value`.
-/

namespace Fluxion

/-- Why an expression has no value. -/
inductive EvalError where
  /-- A name that nobody has a value for. -/
  | undefinedVariable (name : String)
  /-- A call of a name that is no function's. -/
  | undefinedFunction (name : String)
  /-- A call with the wrong number of arguments. -/
  | argumentMismatch (mismatch : ArgumentMismatch)
  deriving DecidableEq, Repr

namespace EvalError

/-- The help for a call of an unknown function: what may have been meant, or
what there is. -/
def functionHelp (name : String) : String :=
  match Function.suggestions name with
  | [] => "the available functions are: " ++ Function.roster
  | [known] => "did you mean the `" ++ known ++ "` function?"
  | several => "did you mean one of these functions? "
      ++ ", ".intercalate (several.map fun known => "`" ++ known ++ "`")

/-- The reason in words. -/
def explanation : EvalError → Explanation
  | undefinedVariable name => {
      message := "`" ++ name ++ "` is not defined"
      label := "this variable"
      help := "every variable other than the constants `pi` and `e` needs a value to evaluate" }
  | undefinedFunction name => {
      message := "the `" ++ name ++ "` function does not exist"
      label := "this function"
      help := functionHelp name }
  | argumentMismatch mismatch => mismatch.explanation

end EvalError

/-- A dialogue that ends with a value or with the reason why there is none. -/
abbrev Evaluation := ExceptT EvalError Dialogue

namespace Evaluation

/-- What becomes of a call once its arguments have been counted. -/
def ofCall : Except ArgumentMismatch α → Evaluation α
  | .ok a => pure a
  | .error mismatch => throw (.argumentMismatch mismatch)

/-- The value of a variable under bindings. -/
def ofVariable (bindings : Bindings) (name : String) : Evaluation Float := do
  match ← bindings.resolve name with
  | some value => pure value
  | none => throw (.undefinedVariable name)

end Evaluation

namespace Expr

mutual

/-- The value of an expression under bindings. -/
def eval (bindings : Bindings) : Expr → Evaluation Float
  | const value => pure value
  | var name => Evaluation.ofVariable bindings name
  | binary op left right => do
    let leftValue ← left.eval bindings
    let rightValue ← right.eval bindings
    return op.apply leftValue rightValue
  | call name arguments =>
    match Function.ofName? name with
    | none => throw (.undefinedFunction name)
    | some f => do
      Evaluation.ofCall (f.checkArity arguments.length)
      let values ← evalAll bindings arguments
      Evaluation.ofCall (f.apply values)

/-- The values of several expressions, in order. -/
def evalAll (bindings : Bindings) : List Expr → Evaluation (List Float)
  | [] => pure []
  | e :: rest => do
    let value ← e.eval bindings
    let values ← evalAll bindings rest
    return value :: values

end

/-- The value of an expression with nothing bound and nobody to ask. -/
def value (e : Expr) : Except EvalError Float :=
  (e.eval ∅).run.alone

end Expr

end Fluxion
