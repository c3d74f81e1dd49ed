import Fluxion.Expr.Derivative
import Fluxion.Expr.Evaluate
import Fluxion.Expr.Outline
import Fluxion.Expr.Parse

/-!
# Calculations

A calculation takes a source through everything the calculator does: it shows
the outline of the expression and of its derivative, and then the value of the
derivative. What it shows is said as soon as it is known, so the outlines are
there before the first question is asked, and whatever was said before a
failure stays said.
-/

namespace Fluxion

/-- Why a calculation came to no result. -/
inductive Failure where
  /-- The source is no expression. -/
  | unreadable (error : ParseError)
  /-- The expression has no derivative. -/
  | underivable (error : DerivativeError)
  /-- The derivative has no value. -/
  | valueless (error : EvalError)
  deriving DecidableEq, Repr

/-- The reason in words. -/
def Failure.explanation : Failure → Explanation
  | unreadable error => error.explanation
  | underivable error => error.explanation
  | valueless error => error.explanation

namespace Calculation

/-- The variable that calculations differentiate with respect to. -/
def mainVariable : String := "x"

/-- The places behind the point of a result. -/
def resultPlaces : Nat := 5

/-- What is said about the expression. -/
def expressionReport (e : Expr) : String :=
  "TREE:\n" ++ e.outlineText ++ "\n"

/-- What is said about its derivative. -/
def derivativeReport (e : Expr) : String :=
  "DERIVATIVE:\n" ++ e.outlineText ++ "\n"

/-- What is said about the value of the derivative. -/
def resultReport (value : Float) : String :=
  "result = " ++ String.ofList (Number.fixed resultPlaces value) ++ "\n"

/-- The calculation for a source under bindings. -/
def run (bindings : Bindings) (source : List Char) : Dialogue (Except Failure Unit) :=
  match Expr.parse source with
  | .error error => .done (.error (.unreadable error))
  | .ok e =>
    .say (expressionReport e) <|
      match e.derivative mainVariable with
      | .error error => .done (.error (.underivable error))
      | .ok derivative =>
        .say (derivativeReport derivative) <| do
          match ← (derivative.eval bindings).run with
          | .error error => return .error (.valueless error)
          | .ok value => Dialogue.say (resultReport value) (.done (.ok ()))

end Calculation

end Fluxion
