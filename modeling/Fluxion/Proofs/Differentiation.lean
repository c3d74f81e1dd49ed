import Fluxion.Proofs.Germs
import Fluxion.Proofs.Rules

/-!
# The derivative is the derivative

An expression has a value in every calculus, once its numbers and its
variables have. The derivative of an expression, which is built by looking at
nothing but its shape, has the derivative of that value for its own.

## Main results

* `read_derivative` — the value of the derivative is the derivative of the
  value, wherever the rules hold.
-/

namespace Fluxion

/-! ## Values -/

/-- What numbers and variables stand for in a calculus, if `wrt` is the
variable to differentiate with respect to. -/
structure Reading {K : Type*} [Field K] (C : Calculus K) (wrt : String) where
  const : Float → K
  var : String → K
  const_zero : const 0 = 0
  const_one : const 1 = 1
  const_two : const 2 = 2
  ln_euler : C.ln (const euler) = 1
  D_const (c : Float) : C.D (const c) = 0
  D_var_self : C.D (var wrt) = 1
  D_var {name : String} (hOther : name ≠ wrt) : C.D (var name) = 0

namespace Reading

open Fluxion.Expr

variable {K : Type*} [Field K] {C : Calculus K} {wrt : String} (R : Reading C wrt)

/-- An operator applied to two values. -/
def operation (C : Calculus K) : Operator → K → K → K
  | .add => (· + ·)
  | .sub => (· - ·)
  | .mul => (· * ·)
  | .div => (· / ·)
  | .pow => C.pow

/-- A function applied to its arguments; with the wrong number of them it has
no value of its own. -/
def application (C : Calculus K) : Function → List K → K
  | .sin, [u] => C.sin u
  | .cos, [u] => C.cos u
  | .tan, [u] => C.tan u
  | .exp, [u] => C.exp u
  | .log, [u, b] => C.log u b
  | _, _ => 0

mutual

/-- The value of an expression. -/
def read : Expr → K
  | .const c => R.const c
  | .var name => R.var name
  | .binary op a b => operation C op (read a) (read b)
  | .call name arguments =>
    match Function.ofName? name with
    | some f => application C f (readAll arguments)
    | none => 0

/-- The values of all expressions of a list. -/
def readAll : List Expr → List K
  | [] => []
  | e :: rest => read e :: readAll rest

end

/-- Where the rule for an operation holds. -/
def OperationRegular (op : Operator) (a b : Expr) : Prop :=
  match op with
  | .add | .sub | .mul => True
  | .div => R.read b ≠ 0
  | .pow => b.isFixed wrt = true ∨ R.read a ≠ 0

/-- Where the rule for a function holds. -/
def FunctionRegular (f : Function) (arguments : List Expr) : Prop :=
  match f, arguments with
  | .tan, [u] => C.cos (R.read u) ≠ 0
  | .log, [u, b] => R.read u ≠ 0 ∧ R.read b ≠ 0 ∧ C.ln (R.read b) ≠ 0
  | _, _ => True

mutual

/-- Every rule that is needed to differentiate the expression holds. -/
def Regular : Expr → Prop
  | .const _ | .var _ => True
  | .binary op a b => Regular a ∧ Regular b ∧ R.OperationRegular op a b
  | .call name arguments =>
    RegularAll arguments ∧ ∀ f, Function.ofName? name = some f → R.FunctionRegular f arguments

/-- Every rule that is needed for the expressions of a list holds. -/
def RegularAll : List Expr → Prop
  | [] => True
  | e :: rest => Regular e ∧ RegularAll rest

end

/-! ## Values of what the rules build -/

@[simp] theorem read_const (c : Float) : R.read (.const c) = R.const c := by
  rw [read]

@[simp] theorem read_add (a b : Expr) : R.read (a + b) = R.read a + R.read b := by
  show R.read (.binary .add a b) = _
  rw [read, operation]

@[simp] theorem read_sub (a b : Expr) : R.read (a - b) = R.read a - R.read b := by
  show R.read (.binary .sub a b) = _
  rw [read, operation]

@[simp] theorem read_mul (a b : Expr) : R.read (a * b) = R.read a * R.read b := by
  show R.read (.binary .mul a b) = _
  rw [read, operation]

@[simp] theorem read_div (a b : Expr) : R.read (a / b) = R.read a / R.read b := by
  show R.read (.binary .div a b) = _
  rw [read, operation]

@[simp] theorem read_pow (a b : Expr) : R.read (a ^ b) = C.pow (R.read a) (R.read b) := by
  show R.read (.binary .pow a b) = _
  rw [read, operation]

theorem read_call (f : Function) (arguments : List Expr) :
    R.read (.call f.name arguments) = application C f (R.readAll arguments) := by
  rw [read, Function.ofName?_name]

@[simp] theorem read_apply (f : Function) (u : Expr) :
    R.read (apply f u) = application C f [R.read u] := by
  rw [apply, read_call, readAll, readAll]

@[simp] theorem read_ln (u : Expr) : R.read u.ln = C.ln (R.read u) := by
  have hCall := R.read_call .log [u, .const euler]
  rw [readAll, readAll, readAll, application, C.log_eq, read_const, R.ln_euler, div_one] at hCall
  exact hCall

end Reading

/-! ## The theorem -/

namespace Reading

open Fluxion.Expr

variable {K : Type*} [Field K] {C : Calculus K} {wrt : String} (R : Reading C wrt)

theorem D_read_of_isFixed {e : Expr} (hFixed : e.isFixed wrt = true) : C.D (R.read e) = 0 := by
  cases e with
  | const c => rw [read, R.D_const]
  | var name => rw [read, R.D_var (by simpa [isFixed] using hFixed)]
  | binary op a b => cases hFixed
  | call name arguments => cases hFixed

/-- The rules for operations hold. -/
private theorem read_operationRule {op : Operator} {a b da db : Expr}
    (hRegular : R.OperationRegular op a b) (hda : R.read da = C.D (R.read a))
    (hdb : R.read db = C.D (R.read b)) (hFixed : (db == .const 0) = b.isFixed wrt) :
    R.read (operationRule op a b da db) = C.D (operation C op (R.read a) (R.read b)) := by
  cases op with
  | add => rw [operationRule, read_add, hda, hdb, operation, map_add]
  | sub => rw [operationRule, read_sub, hda, hdb, operation, map_sub]
  | mul => rw [operationRule, read_add, read_mul, read_mul, hda, hdb, operation, C.D_mul]
  | div =>
      rw [operationRule, read_div, read_sub, read_mul, read_mul, read_mul, hda, hdb, operation,
        C.D_div _ hRegular]
  | pow =>
      rw [operationRule, hFixed, operation]
      split
      · next hExponent =>
          rw [C.D_pow_const _ (R.D_read_of_isFixed hExponent), read_mul, read_mul, read_pow,
            read_sub, read_const, R.const_one, hda]
      · next hExponent =>
          rw [C.D_pow_mul (hRegular.resolve_left hExponent)]
          simp only [read_mul, read_pow, read_add, read_div, read_ln, hda, hdb]

/-- The rules for calls hold. -/
private theorem read_callRule {f : Function} {arguments : List Expr} {e : Expr}
    (hRule : CallRule wrt f arguments e) (hRegular : R.FunctionRegular f arguments)
    (hArguments : ∀ u ∈ arguments, ∀ du, derivative wrt u = .ok du → R.read du = C.D (R.read u)) :
    R.read e = C.D (application C f (R.readAll arguments)) := by
  cases hRule with
  | @sin u du hu =>
      have hdu := hArguments u (by simp) du hu
      simp only [readAll, read_mul, read_apply, application, hdu, C.D_sin]
  | @cos u du hu =>
      have hdu := hArguments u (by simp) du hu
      simp only [readAll, read_sub, read_mul, read_apply, read_const, R.const_zero, application,
        hdu, C.D_cos, zero_sub, neg_mul]
  | @tan u du hu =>
      have hdu := hArguments u (by simp) du hu
      simp only [readAll, read_div, read_pow, read_apply, read_const, R.const_two, application,
        hdu, C.D_tan hRegular]
  | @exp u du hu =>
      have hdu := hArguments u (by simp) du hu
      simp only [readAll, read_mul, read_apply, application, hdu, C.D_exp]
  | @log u b du db hu hb =>
      have hdu := hArguments u (by simp) du hu
      have hdb := hArguments b (by simp) db hb
      obtain ⟨hUNe, hBNe, hLn⟩ := hRegular
      simp only [logRule, readAll, read_div, read_sub, read_mul, read_pow, read_ln, read_const,
        R.const_two, application, hdu, hdb, C.D_log hUNe hBNe hLn]

theorem functionRegular (f : Function) (arguments : List Expr)
    (hRegular : R.FunctionRegular f arguments) :
    ∀ h, Function.ofName? f.name = some h → R.FunctionRegular h arguments := by
  intro h hName
  rw [Function.ofName?_name] at hName
  cases hName
  exact hRegular

theorem regular_of_mem {es : List Expr} (hRegular : R.RegularAll es) {e : Expr} (he : e ∈ es) :
    R.Regular e := by
  induction es with
  | nil => cases he
  | cons first rest ih =>
      rw [RegularAll] at hRegular
      rcases List.mem_cons.1 he with rfl | hMem
      · exact hRegular.1
      · exact ih hRegular.2 hMem

/-- **The derivative is the derivative.** -/
theorem read_derivative {f g : Expr} (hDerivative : derivative wrt f = .ok g)
    (hRegular : R.Regular f) : R.read g = C.D (R.read f) := by
  match f with
  | .const c =>
      rw [derivative] at hDerivative
      cases hDerivative
      rw [read_const, R.const_zero, read, R.D_const]
  | .var name =>
      rw [derivative] at hDerivative
      cases hDerivative
      by_cases hSame : name = wrt
      · rw [if_pos hSame, read_const, R.const_one, read, hSame, R.D_var_self]
      · rw [if_neg hSame, read_const, R.const_zero, read, R.D_var hSame]
  | .binary op a b =>
      rw [Regular] at hRegular
      obtain ⟨ha, hb, hRegular⟩ := hRegular
      obtain ⟨da, db, hda, hdb, rfl⟩ := exists_of_derivative_binary hDerivative
      rw [read]
      exact R.read_operationRule hRegular (read_derivative hda ha) (read_derivative hdb hb)
        (beq_zero_of_derivative hdb)
  | .call name arguments =>
      rw [Regular] at hRegular
      obtain ⟨hArguments, hRegular⟩ := hRegular
      obtain ⟨f, rfl, hRule⟩ := exists_of_derivative_call hDerivative
      rw [read_call]
      refine R.read_callRule hRule (hRegular f (Function.ofName?_name f)) ?_
      intro u hu du hdu
      exact read_derivative hdu (R.regular_of_mem hArguments hu)

/-! ## A reading -/

/-- Numbers as germs; those that rules are written with stand for themselves. -/
noncomputable def germOf (c : Float) : germs :=
  Germs.const <|
    if c.toBits = euler.toBits then Complex.exp 1
    else if c.toBits = (2 : Float).toBits then 2
    else if c.toBits = (1 : Float).toBits then 1
    else 0

private theorem germOf_zero : germOf 0 = 0 := by
  rw [germOf, if_neg (by decide), if_neg (by decide), if_neg (by decide)]
  exact Germs.const_zero

private theorem germOf_one : germOf 1 = 1 := by
  rw [germOf, if_neg (by decide), if_neg (by decide), if_pos (by decide)]
  exact Germs.const_one

private theorem germOf_two : germOf 2 = 2 := by
  rw [germOf, if_neg (by decide), if_pos (by decide)]
  exact Germs.const_two

private theorem ln_germOf_euler : Germs.calculus.ln (germOf euler) = 1 := by
  have hPositive : Complex.exp 1 ∈ Complex.slitPlane := by
    rw [← Complex.ofReal_one, ← Complex.ofReal_exp]
    exact Complex.ofReal_mem_slitPlane.2 (Real.exp_pos 1)
  have hLog : Complex.log (Complex.exp 1) = 1 := by
    rw [← Complex.ofReal_one, ← Complex.ofReal_exp, ← Complex.ofReal_log (Real.exp_pos 1).le,
      Real.log_exp]
  rw [germOf, if_pos rfl]
  exact (Germs.ln_const hPositive).trans ((congrArg Germs.const hLog).trans Germs.const_one)

private theorem D_germOf (c : Float) : Germs.calculus.D (germOf c) = 0 :=
  Germs.D_const _

/-- Variables as germs: `x` is the identity and every other variable is one. -/
noncomputable def germOfName (name : String) : germs :=
  if name = "x" then Germs.identity else Germs.const 1

private theorem D_germOfName_self : Germs.calculus.D (germOfName "x") = 1 := by
  rw [germOfName, if_pos rfl]
  exact Germs.D_identity

private theorem D_germOfName {name : String} (hOther : name ≠ "x") :
    Germs.calculus.D (germOfName name) = 0 := by
  rw [germOfName, if_neg hOther]
  exact Germs.D_const 1

/-- The reading of numbers and variables as germs. -/
noncomputable def ofGerms : Reading Germs.calculus "x" where
  const := germOf
  var := germOfName
  const_zero := germOf_zero
  const_one := germOf_one
  const_two := germOf_two
  ln_euler := ln_germOf_euler
  D_const := D_germOf
  D_var_self := D_germOfName_self
  D_var := D_germOfName

/-- The derivative of `tan(x)*x^x+log(cos(x),x)/x` among germs. -/
theorem read_derivative_ofGerms :
    let x := Expr.var "x"
    let f := apply .tan x * x ^ x + .call "log" [apply .cos x, x] / x
    ∃ g, derivative "x" f = .ok g ∧ ofGerms.Regular f ∧
      ofGerms.read g = Germs.calculus.D (ofGerms.read f) := by
  intro x f
  have hX : Germs.calculus.D (ofGerms.read x) ≠ 0 := by
    rw [read, ofGerms.D_var_self]
    exact one_ne_zero
  have hCos := Germs.calculus.cos_ne_zero hX
  have hNonzero := Germs.calculus.ne_zero hX
  have hLn := Germs.calculus.ln_ne_zero hX
  obtain ⟨g, hDerivative⟩ : ∃ g, derivative "x" f = .ok g := ⟨_, rfl⟩
  have hTan := ofGerms.functionRegular .tan [x] hCos
  have hCosine := ofGerms.functionRegular .cos [x] trivial
  have hLog := ofGerms.functionRegular .log [apply .cos x, x]
    ⟨by rwa [read_apply], hNonzero, hLn⟩
  have hProduct : ofGerms.Regular (apply .tan x * x ^ x) :=
    ⟨⟨⟨trivial, trivial⟩, hTan⟩, ⟨trivial, trivial, .inr hNonzero⟩, trivial⟩
  have hQuotient : ofGerms.Regular (.call "log" [apply .cos x, x] / x) :=
    ⟨⟨⟨⟨⟨trivial, trivial⟩, hCosine⟩, trivial, trivial⟩, hLog⟩, trivial, hNonzero⟩
  have hRegular : ofGerms.Regular f := ⟨hProduct, hQuotient, trivial⟩
  exact ⟨g, hDerivative, hRegular, ofGerms.read_derivative hDerivative hRegular⟩

end Reading

end Fluxion
