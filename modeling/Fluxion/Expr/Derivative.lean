import Fluxion.Expr.Basic
import Fluxion.Function

/-!
# Derivatives

The derivative of an expression with respect to a variable is an expression,
built by the rules of the calculus and left as the rules make it: the
derivative of `x*x` is `1*x+x*1`. Every other variable counts as a constant.

For powers there are two rules. The power rule needs an exponent that does not
depend on the variable, and the exponent is taken not to if its derivative is
the constant zero; otherwise the power is differentiated as the exponential of
its logarithm, which divides by the base and takes its logarithm.
-/

namespace Fluxion

/-- Why an expression has no derivative. -/
inductive DerivativeError where
  /-- A call of a name for which there is no rule. -/
  | unsupportedFunction (name : String)
  /-- A call with the wrong number of arguments. -/
  | argumentMismatch (mismatch : ArgumentMismatch)
  deriving DecidableEq, Repr

/-- The reason in words. -/
def DerivativeError.explanation : DerivativeError → Explanation
  | unsupportedFunction name => {
      message := "cannot differentiate the `" ++ name ++ "` function"
      label := "this function call"
      help := "only " ++ Function.roster ++ " can be differentiated" }
  | argumentMismatch mismatch => mismatch.explanation

namespace Expr

/-- A call of a function with one argument. -/
def apply (f : Function) (argument : Expr) : Expr :=
  call f.name [argument]

/-- The rules for operations: the derivative of `a op b`, given those of `a`
and of `b`. -/
def operationRule (op : Operator) (a b da db : Expr) : Expr :=
  match op with
  | .add => da + db
  | .sub => da - db
  | .mul => da * b + a * db
  | .div => (da * b - a * db) / (b * b)
  | .pow =>
    if db == const 0 then b * a ^ (b - const 1) * da
    else a ^ b * (db * a.ln + b * da / a)

/-- The rule for logarithms to a base: that of the quotient `ln u / ln b`. -/
def logRule (u b du db : Expr) : Expr :=
  (b.ln * du / u - u.ln * db / b) / b.ln ^ const 2

/-- The derivative of an expression with respect to a variable. Calls are
checked from left to right, each before its arguments. -/
def derivative (wrt : String) : Expr → Except DerivativeError Expr
  | const _ => .ok (const 0)
  | var name => .ok (const (if name = wrt then 1 else 0))
  | binary op a b => do
    let da ← a.derivative wrt
    let db ← b.derivative wrt
    return operationRule op a b da db
  | call name arguments =>
    match Function.ofName? name with
    | none => .error (.unsupportedFunction name)
    | some f =>
      match f, arguments with
      | .sin, [u] => do
        let du ← u.derivative wrt
        return apply .cos u * du
      | .cos, [u] => do
        let du ← u.derivative wrt
        return const 0 - apply .sin u * du
      | .tan, [u] => do
        let du ← u.derivative wrt
        return du / apply .cos u ^ const 2
      | .exp, [u] => do
        let du ← u.derivative wrt
        return apply .exp u * du
      | .log, [u, b] => do
        let du ← u.derivative wrt
        let db ← b.derivative wrt
        return logRule u b du db
      | f, arguments => .error (.argumentMismatch ⟨f, arguments.length⟩)

end Expr

end Fluxion
