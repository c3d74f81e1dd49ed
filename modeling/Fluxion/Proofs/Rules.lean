import Fluxion.Expr.Derivative
import Fluxion.Proofs.Outcome

/-!
# The rules of differentiation

A derivative that exists was made by a rule: of an operation by the one for
its operator, of a call by the one for its function, out of the derivatives of
the operands or arguments. A rule for powers is chosen by looking at the
derivative of the exponent, and that tells only whether the exponent is a bare
number or name.

## Main results

* `Expr.exists_of_derivative_binary`, `Expr.exists_of_derivative_call` — how a
  derivative was made.
* `Expr.beq_zero_of_derivative` — which derivatives are the number zero.
-/

namespace Fluxion.Expr

/-- The expression is a number or a variable other than the given one. -/
def isFixed (wrt : String) : Expr → Bool
  | const _ => true
  | var name => name ≠ wrt
  | binary .. | call .. => false

/-! ## How a derivative was made -/

/-- The rules for calls: what the derivative of a call is, given those of its
arguments. -/
inductive CallRule (wrt : String) : Function → List Expr → Expr → Prop
  | sin {u du : Expr} (hu : derivative wrt u = .ok du) :
      CallRule wrt .sin [u] (apply .cos u * du)
  | cos {u du : Expr} (hu : derivative wrt u = .ok du) :
      CallRule wrt .cos [u] (const 0 - apply .sin u * du)
  | tan {u du : Expr} (hu : derivative wrt u = .ok du) :
      CallRule wrt .tan [u] (du / apply .cos u ^ const 2)
  | exp {u du : Expr} (hu : derivative wrt u = .ok du) :
      CallRule wrt .exp [u] (apply .exp u * du)
  | log {u b du db : Expr} (hu : derivative wrt u = .ok du) (hb : derivative wrt b = .ok db) :
      CallRule wrt .log [u, b] (logRule u b du db)

section

variable {wrt : String} {e : Expr}

theorem exists_of_derivative_binary {op : Operator} {a b : Expr}
    (hDerivative : derivative wrt (binary op a b) = .ok e) :
    ∃ da db, derivative wrt a = .ok da ∧ derivative wrt b = .ok db ∧
      e = operationRule op a b da db := by
  rw [derivative] at hDerivative
  obtain ⟨da, ha, hDerivative⟩ := bind_eq_ok_iff.1 hDerivative
  obtain ⟨db, hb, hDerivative⟩ := bind_eq_ok_iff.1 hDerivative
  cases hDerivative
  exact ⟨da, db, ha, hb, rfl⟩

theorem exists_of_derivative_call {name : String} {arguments : List Expr}
    (hDerivative : derivative wrt (call name arguments) = .ok e) :
    ∃ f, f.name = name ∧ CallRule wrt f arguments e := by
  rw [derivative] at hDerivative
  split at hDerivative
  · cases hDerivative
  · next f hName =>
      refine ⟨f, Function.name_of_ofName? hName, ?_⟩
      split at hDerivative
      · obtain ⟨du, hu, hDerivative⟩ := bind_eq_ok_iff.1 hDerivative
        cases hDerivative
        exact .sin hu
      · obtain ⟨du, hu, hDerivative⟩ := bind_eq_ok_iff.1 hDerivative
        cases hDerivative
        exact .cos hu
      · obtain ⟨du, hu, hDerivative⟩ := bind_eq_ok_iff.1 hDerivative
        cases hDerivative
        exact .tan hu
      · obtain ⟨du, hu, hDerivative⟩ := bind_eq_ok_iff.1 hDerivative
        cases hDerivative
        exact .exp hu
      · obtain ⟨du, hu, hDerivative⟩ := bind_eq_ok_iff.1 hDerivative
        obtain ⟨db, hb, hDerivative⟩ := bind_eq_ok_iff.1 hDerivative
        cases hDerivative
        exact .log hu hb
      · cases hDerivative

end

/-! ## When the power rule applies -/

/-- The derivative of an operation is an operation. -/
private theorem beq_zero_operationRule (op : Operator) (a b da db : Expr) :
    (operationRule op a b da db == const 0) = false := by
  cases op with
  | pow =>
      rw [operationRule]
      split <;> rfl
  | add => rfl
  | sub => rfl
  | mul => rfl
  | div => rfl

/-- **The derivative of an expression is the number zero** if and only if the
expression is a number or another variable. -/
theorem beq_zero_of_derivative {wrt : String} {e de : Expr}
    (hDerivative : derivative wrt e = .ok de) : (de == const 0) = e.isFixed wrt := by
  cases e with
  | const c =>
      rw [derivative] at hDerivative
      cases hDerivative
      rw [isFixed]
      decide
  | var name =>
      rw [derivative] at hDerivative
      cases hDerivative
      by_cases hSame : name = wrt
      · rw [if_pos hSame, isFixed, decide_eq_false (by simpa using hSame)]
        decide
      · rw [if_neg hSame, isFixed, decide_eq_true hSame]
        decide
  | binary op a b =>
      obtain ⟨da, db, -, -, rfl⟩ := exists_of_derivative_binary hDerivative
      exact beq_zero_operationRule op a b da db
  | call name arguments =>
      obtain ⟨f, -, hRule⟩ := exists_of_derivative_call hDerivative
      cases hRule <;> rfl

end Fluxion.Expr
