import Fluxion.Proofs.Encoding
import Fluxion.Proofs.Endings

/-!
# Derivatives of derivatives

An expression can be differentiated again and again, with respect to one
variable after the other. What the source decides about its nodes stays true
all along: which functions are called, which variables there are, and that no
constant is below zero. One more thing is true from the first derivative on,
whatever the source: every call has the right number of arguments. So it is
the first differentiation that decides whether all of them come through, and
nothing but the value of a variable can be missing at the end.

## Main results

* `Expr.every_derivatives` — what holds of the nodes of an expression and of
  what rules add holds of the nodes of all its derivatives.
* `Expr.exists_derivatives` — with all calls in order, every further derivative
  exists.
* `Expr.descends_of_derivatives` — what is known of the derivatives of a
  source.
-/

namespace Fluxion

/-! ## What stays true of nodes -/

/-- A node as it may stand in what descends from a source: constants are
numbers and not below zero, variables are names in the source that are no
constants, and only functions are called. -/
def Node.DescendsFrom (source : List Char) : Node → Prop
  | const value => 0 ≤ value ∧ value.isNaN = false
  | var name => name ∈ namesIn source ∧ name ≠ "pi" ∧ name ≠ "e"
  | operation _ => True
  | call function _ => ∃ f : Function, f.name = function

/-- The node is no call, or it calls a function with as many arguments as that
takes. -/
def Node.Saturated : Node → Prop
  | call function given => ∃ f : Function, f.name = function ∧ f.arity = given
  | const _ | var _ | operation _ => True

/-- A call is in order exactly if it has no fault. -/
theorem Node.saturated_iff (node : Node) : node.Saturated ↔ node.fault? = none := by
  cases node with
  | const | var | operation => exact iff_of_true trivial rfl
  | call function given =>
      constructor
      · rintro ⟨f, rfl, hArity⟩
        rw [fault?_call_name, if_pos hArity]
      · intro hFault
        rw [fault?] at hFault
        split at hFault
        · cases hFault
        · next f hName =>
            refine ⟨f, Function.name_of_ofName? hName, ?_⟩
            by_contra hArity
            rw [if_neg hArity] at hFault
            cases hFault

namespace Expr

theorem every_saturated_iff {e : Expr} :
    e.Every Node.Saturated ↔ e.Every (·.fault? = none) :=
  forall₂_congr fun node _ => node.saturated_iff

/-- What the rules add descends from any source. -/
private theorem addedBy_descendsFrom (source : List Char) :
    AddedBy (Node.DescendsFrom source) where
  operation _ := trivial
  zero := by
    show (0 : Float) ≤ 0 ∧ (0 : Float).isNaN = false
    decide
  one := by
    show (0 : Float) ≤ 1 ∧ (1 : Float).isNaN = false
    decide
  two := by
    show (0 : Float) ≤ 2 ∧ (2 : Float).isNaN = false
    decide
  euler := by
    show 0 ≤ euler ∧ euler.isNaN = false
    decide
  call f := ⟨f, rfl⟩

/-- What is read from a source descends from it. -/
theorem descends_of_parse {source : List Char} {e : Expr} (hRead : parse source = .ok e) :
    e.Every (Node.DescendsFrom source) := by
  intro node hNode
  have hReadable := readable_of_parse hRead node hNode
  cases node with
  | const value =>
      obtain ⟨pattern, hPattern, rfl⟩ := hReadable
      exact Number.zero_le_ofPattern hPattern
  | var name =>
      have hAsk := Calculation.mayAsk_of_parse hRead (mem_vars.2 hNode)
      exact ⟨hAsk.mem_source, hAsk.ne_pi, hAsk.ne_euler⟩
  | operation op => trivial
  | call function given =>
      obtain ⟨f, hName⟩ := Option.isSome_iff_exists.1 hReadable
      exact ⟨f, Function.name_of_ofName? hName⟩

/-! ## One derivative after the other -/

/-- The derivative with respect to several variables, one after the other. -/
def derivatives (wrts : List String) (e : Expr) : Except DerivativeError Expr :=
  wrts.foldlM (fun e wrt => e.derivative wrt) e

theorem derivatives_nil (e : Expr) : e.derivatives [] = .ok e := rfl

theorem derivatives_cons (wrt : String) (wrts : List String) (e : Expr) :
    e.derivatives (wrt :: wrts) = e.derivative wrt >>= derivatives wrts := by
  rw [derivatives, List.foldlM_cons]
  rfl

/-- **The nodes of all derivatives**: what holds of the nodes of an expression
and of what rules add holds of them. -/
theorem every_derivatives {P : Node → Prop} (hRules : AddedBy P) {wrts : List String} {e d : Expr}
    (hEvery : e.Every P) (hDerivatives : e.derivatives wrts = .ok d) : d.Every P := by
  induction wrts generalizing e with
  | nil =>
      cases hDerivatives
      exact hEvery
  | cons wrt wrts ih =>
      rw [derivatives_cons] at hDerivatives
      obtain ⟨d₁, hFirst, hRest⟩ := bind_eq_ok_iff.1 hDerivatives
      exact ih (every_derivative hRules hEvery hFirst) hRest

/-- All calls are in order in every derivative. -/
theorem saturated_derivative {wrt : String} {e d : Expr}
    (hDerivative : e.derivative wrt = .ok d) : d.Every Node.Saturated :=
  every_saturated_iff.2 (faultless_derivative hDerivative)

/-- **With all calls in order every further derivative exists**, and all of its
calls are in order. -/
theorem exists_derivatives {e : Expr} (hSaturated : e.Every Node.Saturated)
    (wrts : List String) : ∃ d, e.derivatives wrts = .ok d ∧ d.Every Node.Saturated := by
  induction wrts generalizing e with
  | nil => exact ⟨e, derivatives_nil e, hSaturated⟩
  | cons wrt wrts ih =>
      obtain ⟨d₁, hFirst⟩ : ∃ d₁, e.derivative wrt = .ok d₁ :=
        exists_derivative_iff.2 (every_saturated_iff.1 hSaturated)
      obtain ⟨d, hRest, hLast⟩ := ih (saturated_derivative hFirst)
      refine ⟨d, ?_, hLast⟩
      rw [derivatives_cons, hFirst]
      exact hRest

/-- The first differentiation decides about all of them. -/
theorem exists_derivatives_of_first {e : Expr} {wrt : String}
    (hFirst : ∃ d, e.derivative wrt = .ok d) (wrts : List String) :
    ∃ d, e.derivatives (wrt :: wrts) = .ok d ∧ d.Every Node.Saturated := by
  obtain ⟨d₁, hDerivative⟩ := hFirst
  obtain ⟨d, hRest, hLast⟩ := exists_derivatives (saturated_derivative hDerivative) wrts
  refine ⟨d, ?_, hLast⟩
  rw [derivatives_cons, hDerivative]
  exact hRest

/-- With all calls in order only the value of a variable can be missing. -/
theorem eval_of_saturated {σ : Type} (s : Session σ) {e : Expr}
    (hSaturated : e.Every Node.Saturated) :
    (∃ value, (s.eval e).1 = .ok value) ∨
      ∃ name, (s.eval e).1 = .error (.undefinedVariable name) := by
  rcases s.eval_of_faultless (every_saturated_iff.1 hSaturated) with hValue | ⟨name, -, -, hError⟩
  · exact .inl hValue
  · exact .inr ⟨name, hError⟩

/-- **What is known of the derivatives of a source.** However often it was
differentiated, the nodes descend from the source. From the first derivative on
all calls are in order, so that evaluation fails only for want of a value; and
if the first derivative exists, all further ones do. -/
theorem descends_of_derivatives {source : List Char} {e : Expr} (hRead : parse source = .ok e) :
    (∀ wrts d, e.derivatives wrts = .ok d → d.Every (Node.DescendsFrom source)) ∧
    (∀ wrt wrts d, e.derivatives (wrt :: wrts) = .ok d →
      d.Every Node.Saturated ∧
        ∀ (σ : Type) (s : Session σ), (∃ value, (s.eval d).1 = .ok value) ∨
          ∃ name, (s.eval d).1 = .error (.undefinedVariable name)) ∧
    (∀ wrt, (∃ d, e.derivative wrt = .ok d) →
      ∀ wrts, ∃ d, e.derivatives (wrt :: wrts) = .ok d) := by
  refine ⟨?_, ?_, ?_⟩
  · intro wrts d hDerivatives
    exact every_derivatives (addedBy_descendsFrom source) (descends_of_parse hRead) hDerivatives
  · intro wrt wrts d hDerivatives
    have hSaturated : d.Every Node.Saturated := by
      rw [derivatives_cons] at hDerivatives
      obtain ⟨d₁, hFirst, hRest⟩ := bind_eq_ok_iff.1 hDerivatives
      obtain ⟨d', hSame, hLast⟩ := exists_derivatives (saturated_derivative hFirst) wrts
      rw [hRest] at hSame
      cases hSame
      exact hLast
    exact ⟨hSaturated, fun σ s => eval_of_saturated s hSaturated⟩
  · intro wrt hFirst wrts
    obtain ⟨d, hDerivatives, -⟩ := exists_derivatives_of_first hFirst wrts
    exact ⟨d, hDerivatives⟩

private theorem parse_sine : parse "sin(x*y)".toList =
    .ok (call "sin" [binary .mul (var "x") (var "y")]) := by
  cbv

/-- `sin(x*y)` has a derivative with respect to `x`, so it has one with respect
to `x`, then `y`, then `z`. -/
theorem descends_of_derivatives_sine :
    let source := "sin(x*y)".toList
    let e := call "sin" [binary .mul (var "x") (var "y")]
    parse source = .ok e ∧ ∃ d, e.derivatives ["x", "y", "z"] = .ok d ∧
      d.Every (Node.DescendsFrom source) ∧ d.Every Node.Saturated := by
  intro source e
  have hKnown := descends_of_derivatives parse_sine
  obtain ⟨d, hDerivatives⟩ := hKnown.2.2 "x" ⟨_, rfl⟩ ["y", "z"]
  exact ⟨parse_sine, d, hDerivatives, hKnown.1 _ d hDerivatives, (hKnown.2.1 _ _ d hDerivatives).1⟩

end Expr

end Fluxion
