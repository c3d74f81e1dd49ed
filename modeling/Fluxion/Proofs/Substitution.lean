import Fluxion.Expr.Parse
import Fluxion.Proofs.Faults
import Fluxion.Proofs.PowerRule

/-!
# Differentiation and constants put for names

For differentiation a name other than the variable is a constant of unknown
value. So it cannot matter whether the value is put in before or afterwards,
and it would not be a matter of course that it does not: of the two rules for
powers one is chosen by comparing a derivative with a number, and a value that
is put in changes what is compared. The choice depends only on whether the
exponent is a bare number or another name, and putting numbers for names keeps
that.

## Main results

* `Expr.isFixed_substitute` — what the choice between the rules depends on is
  kept.
* `Expr.derivative_substitute` — the derivative of an expression with constants
  put for names is its derivative with the same constants put for them.
* `Expr.substitution_commutes` — the same, with the case of the named constants.
-/

namespace Fluxion.Expr

/-! ## Substitution -/

mutual

/-- The expression with constants put for the names that have a value. -/
def substitute (values : String → Option Float) : Expr → Expr
  | const value => const value
  | var name =>
    match values name with
    | some value => const value
    | none => var name
  | binary op left right => binary op (left.substitute values) (right.substitute values)
  | call function arguments => call function (substituteAll values arguments)

/-- All expressions of a list with constants put for names. -/
def substituteAll (values : String → Option Float) : List Expr → List Expr
  | [] => []
  | e :: rest => e.substitute values :: substituteAll values rest

end

/-- A name is read as what putting in the named constants makes of it. -/
theorem ofToken?_name {t : Token} (hKind : t.kind = .name) :
    ofToken? t = .ok ((var t.text).substitute constant?) := by
  rw [ofToken?, hKind, substitute]
  cases constant? t.text <;> rfl

section

variable (values : String → Option Float)

theorem length_substituteAll (es : List Expr) :
    (substituteAll values es).length = es.length := by
  induction es with
  | nil => rfl
  | cons e rest ih => rw [substituteAll, List.length_cons, List.length_cons, ih]

@[simp] theorem substitute_const (value : Float) :
    (const value).substitute values = const value := by
  rw [substitute]

@[simp] theorem substitute_add (a b : Expr) :
    (a + b).substitute values = a.substitute values + b.substitute values :=
  rfl

@[simp] theorem substitute_sub (a b : Expr) :
    (a - b).substitute values = a.substitute values - b.substitute values :=
  rfl

@[simp] theorem substitute_mul (a b : Expr) :
    (a * b).substitute values = a.substitute values * b.substitute values :=
  rfl

@[simp] theorem substitute_div (a b : Expr) :
    (a / b).substitute values = a.substitute values / b.substitute values :=
  rfl

@[simp] theorem substitute_pow (a b : Expr) :
    (a ^ b).substitute values = a.substitute values ^ b.substitute values :=
  rfl

@[simp] theorem substitute_apply (f : Function) (u : Expr) :
    (apply f u).substitute values = apply f (u.substitute values) := by
  rw [apply, substitute, substituteAll, substituteAll, apply]

@[simp] theorem substitute_ln (u : Expr) : u.ln.substitute values = (u.substitute values).ln := by
  rw [ln, substitute, substituteAll, substituteAll, substituteAll, substitute_const, ln]

theorem substitute_logRule (u b du db : Expr) :
    (logRule u b du db).substitute values =
      logRule (u.substitute values) (b.substitute values) (du.substitute values)
        (db.substitute values) := by
  simp [logRule]

end

/-! ## The rules -/

section

variable {wrt : String} {values : String → Option Float} (hOther : values wrt = none)
include hOther

/-- **The choice between the rules for powers is kept.** -/
theorem isFixed_substitute (e : Expr) : (e.substitute values).isFixed wrt = e.isFixed wrt := by
  cases e with
  | const value => rw [substitute_const]
  | var name =>
      rw [substitute]
      cases hValue : values name with
      | none => rfl
      | some value =>
          have hName : name ≠ wrt := by
            rintro rfl
            rw [hOther] at hValue
            cases hValue
          exact (decide_eq_true hName).symm
  | binary op a b => rw [substitute, isFixed, isFixed]
  | call function arguments => rw [substitute, isFixed, isFixed]

/-- An operation and its derivative, with constants put in before or
afterwards. -/
private theorem substitute_operationRule (op : Operator) (a : Expr) {b da db : Expr}
    (hb : derivative wrt b = .ok db)
    (hSame : derivative wrt (b.substitute values) = .ok (db.substitute values)) :
    (operationRule op a b da db).substitute values =
      operationRule op (a.substitute values) (b.substitute values) (da.substitute values)
        (db.substitute values) := by
  cases op with
  | add | sub | mul | div => simp [operationRule]
  | pow =>
      have hChoice : (db.substitute values == const 0) = (db == const 0) := by
        rw [beq_zero_of_derivative hSame, beq_zero_of_derivative hb, isFixed_substitute hOther]
      rw [operationRule, operationRule, hChoice]
      split <;> simp

end

section

variable (wrt : String) (values : String → Option Float)

/-- The rule for a function of one argument takes constants put in before or
afterwards. -/
private theorem exists_rule_substitute {f : Function} (hArity : f.arity = 1) :
    ∃ rule : Expr → Expr → Expr,
      (∀ u, derivative wrt (call f.name [u]) = derivative wrt u >>= fun du => .ok (rule u du)) ∧
      ∀ u du, (rule u du).substitute values =
        rule (u.substitute values) (du.substitute values) := by
  cases f with
  | sin => exact ⟨fun u du => apply .cos u * du, fun _ => rfl, by simp⟩
  | cos => exact ⟨fun u du => const 0 - apply .sin u * du, fun _ => rfl, by simp⟩
  | tan => exact ⟨fun u du => du / apply .cos u ^ const 2, fun _ => rfl, by simp⟩
  | exp => exact ⟨fun u du => apply .exp u * du, fun _ => rfl, by simp⟩
  | log => cases hArity

private theorem derivative_substitute_call (f : Function) {arguments : List Expr}
    (hArguments : ∀ u ∈ arguments, derivative wrt (u.substitute values) =
      (derivative wrt u).map (substitute values)) :
    derivative wrt ((call f.name arguments).substitute values) =
      (derivative wrt (call f.name arguments)).map (substitute values) := by
  rw [substitute]
  by_cases hArity : f.arity = arguments.length
  · match arguments, hArity with
    | [], hArity => cases f <;> cases hArity
    | [u], hArity =>
        obtain ⟨rule, hRule, hSubstitute⟩ := exists_rule_substitute wrt values hArity
        rw [substituteAll, substituteAll, hRule, hRule, hArguments u (by simp)]
        cases derivative wrt u with
        | error e => rfl
        | ok du => exact congrArg Except.ok (hSubstitute u du).symm
    | [u, b], hArity =>
        obtain rfl : f = .log := by
          have hTwo : f.arity = 2 := hArity
          revert hTwo
          cases f <;> decide
        rw [substituteAll, substituteAll, substituteAll, derivative_log, derivative_log,
          hArguments u (by simp), hArguments b (by simp)]
        cases derivative wrt u with
        | error e => rfl
        | ok du =>
            cases derivative wrt b with
            | error e => rfl
            | ok db => exact congrArg Except.ok (substitute_logRule values u b du db).symm
    | u :: b :: c :: rest, hArity =>
        have hTwo : f.arity ≤ 2 := by cases f <;> decide
        simp only [List.length_cons] at hArity
        omega
  · -- the number of arguments is all that matters here
    have hLength := length_substituteAll values arguments
    rw [derivative_of_arity_ne hArity, derivative_of_arity_ne (hLength ▸ hArity), hLength]
    rfl

end

/-- **Constants may be put for other names before or after differentiating**,
with the same derivative or the same error. -/
theorem derivative_substitute {wrt : String} {values : String → Option Float}
    (hOther : values wrt = none) (e : Expr) :
    derivative wrt (e.substitute values) = (derivative wrt e).map (substitute values) := by
  match e with
  | const value => rfl
  | var name =>
      rw [substitute]
      cases hValue : values name with
      | none => rfl
      | some value =>
          have hName : name ≠ wrt := by
            rintro rfl
            rw [hOther] at hValue
            cases hValue
          rw [derivative, derivative, if_neg hName]
          rfl
  | binary op a b =>
      have ha := derivative_substitute hOther a
      have hb := derivative_substitute hOther b
      rw [substitute, derivative, derivative, ha, hb]
      cases hda : derivative wrt a with
      | error e => rfl
      | ok da =>
          cases hdb : derivative wrt b with
          | error e => rfl
          | ok db =>
              rw [hdb] at hb
              exact congrArg Except.ok (substitute_operationRule hOther op a hdb hb).symm
  | call function arguments =>
      cases hName : Function.ofName? function with
      | none =>
          rw [substitute, derivative, derivative, hName]
          rfl
      | some f =>
          obtain rfl := Function.name_of_ofName? hName
          exact derivative_substitute_call wrt values f fun u _ => derivative_substitute hOther u

/-- **Substitution and differentiation commute.** The named constants are put in
like any other, unless one of them is the variable; and a name is read as what
putting them in makes of it. -/
theorem substitution_commutes (wrt : String) :
    (∀ values : String → Option Float, values wrt = none → ∀ e : Expr,
      derivative wrt (e.substitute values) = (derivative wrt e).map (substitute values)) ∧
    (wrt ≠ "pi" → wrt ≠ "e" → ∀ e : Expr,
      derivative wrt (e.substitute constant?) = (derivative wrt e).map (substitute constant?)) ∧
    ∀ t : Token, t.kind = .name → ofToken? t = .ok ((var t.text).substitute constant?) := by
  refine ⟨fun values hOther => derivative_substitute hOther, fun hPi hEuler => ?_,
    fun t hKind => ofToken?_name hKind⟩
  exact derivative_substitute (constant?_eq_none_iff.2 ⟨hPi, hEuler⟩)

/-- Putting a number for `y` leaves `x^y` to the power rule, and `e^x` to the
other one with or without the number for `e`. -/
theorem substitution_commutes_power :
    let values : String → Option Float := fun name => if name = "y" then some 3 else none
    let power := var "x" ^ var "y"
    let exponential := var "e" ^ var "x"
    values "x" = none ∧ power.substitute values = var "x" ^ const 3 ∧
    derivative "x" power = .ok (var "y" * var "x" ^ (var "y" - const 1) * const 1) ∧
    derivative "x" (power.substitute values) =
      .ok (const 3 * var "x" ^ (const 3 - const 1) * const 1) ∧
    "x" ≠ "pi" ∧ "x" ≠ "e" ∧ exponential.substitute constant? = const euler ^ var "x" ∧
    derivative "x" exponential =
      .ok (var "e" ^ var "x" *
        (const 1 * (var "e").ln + var "x" * const 0 / var "e")) ∧
    derivative "x" (exponential.substitute constant?) =
      .ok (const euler ^ var "x" *
        (const 1 * (const euler).ln + var "x" * const 0 / const euler)) := by
  intro values power exponential
  obtain ⟨hValues, hConstants, -⟩ := substitution_commutes "x"
  have hOther : values "x" = none := rfl
  have hPi : "x" ≠ "pi" := by decide
  have hEuler : "x" ≠ "e" := by decide
  have hx : derivative "x" (var "x") = .ok (const 1) := rfl
  have hy : derivative "x" (var "y") = .ok (const 0) := rfl
  have he : derivative "x" (var "e") = .ok (const 0) := rfl
  have hPower : derivative "x" power = .ok (powerRule (var "x") (var "y") (const 1)) :=
    derivative_pow hx hy
  have hExponential : derivative "x" exponential =
      .ok (logarithmicRule (var "e") (var "x") (const 0) (const 1)) :=
    derivative_pow he hx
  -- the derivatives of what has the numbers are those with the numbers put in
  have hPowerValue := hValues values hOther power
  have hExponentialValue := hConstants hPi hEuler exponential
  rw [hPower] at hPowerValue
  rw [hExponential] at hExponentialValue
  exact ⟨hOther, rfl, hPower, hPowerValue, hPi, hEuler, rfl, hExponential, hExponentialValue⟩

end Fluxion.Expr
