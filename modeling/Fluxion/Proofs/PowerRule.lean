import Fluxion.Proofs.Nodes
import Fluxion.Proofs.Rules

/-!
# When the power rule is used

The power rule is meant for exponents that do not depend on the variable. An
exponent shows that it does not by its derivative, which then has the value
zero; but derivatives are not simplified, and only bare numbers and names have
the number zero itself for one. So every exponent that is an operation or a
call is differentiated through the logarithm of the base, even if no variable
occurs in it, and the derivative has no value where the base is zero or
negative.

## Main results

* `Expr.derivative_pow` — the derivative of a power, in both cases.
* `Expr.derivative_pow_eq_powerRule_iff` — the power rule is used for bare
  numbers and names other than the variable, and for no other exponents.
* `Expr.derivative_pow_difference` — it is not used for `x^(0-2)`.
-/

namespace Fluxion.Expr

/-- The rule for powers whose exponent does not depend on the variable. -/
def powerRule (a b da : Expr) : Expr :=
  b * a ^ (b - const 1) * da

/-- The rule for all powers, that of the exponential of `b * ln a`. -/
def logarithmicRule (a b da db : Expr) : Expr :=
  a ^ b * (db * a.ln + b * da / a)

theorem powerRule_ne_logarithmicRule (a b da db : Expr) :
    powerRule a b da ≠ logarithmicRule a b da db := by
  intro hEq
  injection hEq with _ hFactor
  injection hFactor with hOperator
  cases hOperator

/-- An exponent that is a bare number or another name does not depend on the
variable. -/
theorem notMem_vars_of_isFixed {wrt : String} {b : Expr} (hFixed : b.isFixed wrt = true) :
    wrt ∉ b.vars := by
  intro hMem
  cases b with
  | const c => cases hMem
  | var name =>
      obtain rfl : wrt = name := List.mem_singleton.1 hMem
      simp [isFixed] at hFixed
  | binary | call => cases hFixed

variable {wrt : String} {a b da db : Expr}

theorem derivative_pow (ha : derivative wrt a = .ok da) (hb : derivative wrt b = .ok db) :
    derivative wrt (a ^ b) =
      .ok (if b.isFixed wrt then powerRule a b da else logarithmicRule a b da db) := by
  rw [← beq_zero_of_derivative hb]
  show derivative wrt (binary .pow a b) = _
  rw [derivative, ha, hb]
  rfl

/-- **When the power rule is used**: for exponents that are bare numbers or
names other than the variable. Every other exponent is differentiated by the
logarithmic rule. -/
theorem derivative_pow_eq_powerRule_iff (ha : derivative wrt a = .ok da)
    (hb : derivative wrt b = .ok db) :
    (derivative wrt (a ^ b) = .ok (powerRule a b da) ↔ b.isFixed wrt = true) ∧
    (b.isFixed wrt = true → wrt ∉ b.vars) ∧
    (b.isFixed wrt = false → derivative wrt (a ^ b) = .ok (logarithmicRule a b da db)) := by
  have hPow := derivative_pow ha hb
  refine ⟨⟨?_, ?_⟩, notMem_vars_of_isFixed, ?_⟩
  · intro hRule
    by_contra hFixed
    rw [hPow, if_neg hFixed] at hRule
    exact powerRule_ne_logarithmicRule a b da db (Except.ok.inj hRule).symm
  · intro hFixed
    rw [hPow, if_pos hFixed]
  · intro hFixed
    rw [hPow, if_neg (by simp [hFixed])]

/-- The power rule is used for `sin(x)^y`, and the logarithmic one for
`sin(x)^(y+1)`. -/
theorem derivative_pow_sine :
    let a := apply .sin (var "x")
    let da := apply .cos (var "x") * const 1
    let sum := var "y" + const 1
    (derivative "x" a = .ok da ∧ derivative "x" (var "y") = .ok (const 0) ∧
      derivative "x" (a ^ var "y") = .ok (powerRule a (var "y") da)) ∧
    (derivative "x" sum = .ok (const 0 + const 0) ∧
      derivative "x" (a ^ sum) = .ok (logarithmicRule a sum da (const 0 + const 0))) := by
  intro a da sum
  have ha : derivative "x" a = .ok da := rfl
  have hName : derivative "x" (var "y") = .ok (const 0) := rfl
  have hSum : derivative "x" sum = .ok (const 0 + const 0) := rfl
  exact ⟨⟨ha, hName, (derivative_pow_eq_powerRule_iff ha hName).1.2 rfl⟩,
    hSum, (derivative_pow_eq_powerRule_iff ha hSum).2.2 rfl⟩

/-- The variable does not occur in the exponent of `x^(0-2)`, and yet the power
rule is not used. -/
theorem derivative_pow_difference :
    let b := const 0 - const 2
    "x" ∉ b.vars ∧ derivative "x" (var "x") = .ok (const 1) ∧
      derivative "x" b = .ok (const 0 - const 0) ∧
      derivative "x" (var "x" ^ b) ≠ .ok (b * var "x" ^ (b - const 1) * const 1) := by
  intro b
  have hx : derivative "x" (var "x") = .ok (const 1) := rfl
  have hb : derivative "x" b = .ok (const 0 - const 0) := rfl
  refine ⟨List.not_mem_nil, hx, hb, ?_⟩
  rw [derivative_pow hx hb]
  intro hRule
  exact powerRule_ne_logarithmicRule _ _ _ _ (Except.ok.inj hRule).symm

end Fluxion.Expr
