import Mathlib.RingTheory.Derivation.Basic
import Mathlib.Tactic.FieldSimp
import Mathlib.Tactic.LinearCombination

/-!
# Calculus in a field

The rules by which expressions are differentiated need no limits. A
`Calculus` is a field with a derivation and with functions of which exactly
those rules are asked that anybody knows from school, so that an expression
can be given a value in it without any rounding.

## Main results

* `Calculus.D_tan`, `Calculus.D_log` — the rules that follow from the others.
* `Calculus.cos_ne_zero`, `Calculus.ln_ne_zero` — what is not constant has
  values that are not zero.
-/

namespace Fluxion

/-- A field with a derivation and the functions of the calculus. -/
structure Calculus (K : Type*) [Field K] where
  D : Derivation ℤ K K
  sin : K → K
  cos : K → K
  tan : K → K
  exp : K → K
  ln : K → K
  log : K → K → K
  pow : K → K → K
  D_sin (u : K) : D (sin u) = cos u * D u
  D_cos (u : K) : D (cos u) = -sin u * D u
  sin_sq_add_cos_sq (u : K) : sin u ^ 2 + cos u ^ 2 = 1
  tan_eq (u : K) : tan u = sin u / cos u
  D_exp (u : K) : D (exp u) = exp u * D u
  D_ln {u : K} (hu : u ≠ 0) : D (ln u) = D u / u
  log_eq (u b : K) : log u b = ln u / ln b
  pow_two (u : K) : pow u 2 = u * u
  /-- The power rule, for constant exponents. -/
  D_pow_const (u : K) {c : K} (hc : D c = 0) : D (pow u c) = c * pow u (c - 1) * D u
  /-- The rule for every other power. -/
  D_pow {u : K} (hu : u ≠ 0) (v : K) : D (pow u v) = pow u v * D (v * ln u)

namespace Calculus

variable {K : Type*} [Field K] (C : Calculus K)

theorem D_mul (u v : K) : C.D (u * v) = C.D u * v + u * C.D v := by
  rw [C.D.leibniz, smul_eq_mul, smul_eq_mul]
  ring

theorem D_div (u : K) {v : K} (hv : v ≠ 0) :
    C.D (u / v) = (C.D u * v - u * C.D v) / (v * v) := by
  rw [C.D.leibniz_div, smul_eq_mul, smul_eq_mul, smul_eq_mul]
  field_simp

/-- The derivative of a tangent. -/
theorem D_tan {u : K} (hu : C.cos u ≠ 0) : C.D (C.tan u) = C.D u / C.pow (C.cos u) 2 := by
  have hSquares := C.sin_sq_add_cos_sq u
  rw [C.tan_eq, C.D_div _ hu, C.D_sin, C.D_cos, C.pow_two]
  congr 1
  linear_combination C.D u * hSquares

/-- The derivative of a logarithm to a base. -/
theorem D_log {u b : K} (hu : u ≠ 0) (hb : b ≠ 0) (hln : C.ln b ≠ 0) :
    C.D (C.log u b) =
      (C.ln b * C.D u / u - C.ln u * C.D b / b) / C.pow (C.ln b) 2 := by
  rw [C.log_eq, C.D_div _ hln, C.D_ln hu, C.D_ln hb, C.pow_two]
  ring

/-- The derivative of a power whose exponent may be anything. -/
theorem D_pow_mul {u : K} (hu : u ≠ 0) (v : K) :
    C.D (C.pow u v) = C.pow u v * (C.D v * C.ln u + v * C.D u / u) := by
  rw [C.D_pow hu, C.D_mul, C.D_ln hu, mul_div_assoc]

section

variable {u : K} (hu : C.D u ≠ 0)
include hu

theorem ne_zero : u ≠ 0 := by
  rintro rfl
  exact hu (map_zero C.D)

theorem cos_ne_zero : C.cos u ≠ 0 := by
  intro hCos
  have hSin : C.sin u = 0 := by
    have hD := C.D_cos u
    rw [hCos, map_zero, eq_comm, mul_eq_zero, neg_eq_zero] at hD
    exact hD.resolve_right hu
  have hSquares := C.sin_sq_add_cos_sq u
  rw [hSin, hCos] at hSquares
  simp at hSquares

theorem ln_ne_zero : C.ln u ≠ 0 := by
  intro hLn
  have hD := C.D_ln (C.ne_zero hu)
  rw [hLn, map_zero, eq_comm, div_eq_zero_iff] at hD
  exact hD.elim hu (C.ne_zero hu)

end

end Calculus

end Fluxion
