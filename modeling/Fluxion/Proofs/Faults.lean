import Fluxion.Proofs.Nodes
import Fluxion.Proofs.Rules

/-!
# Faults and derivatives

Differentiation looks at every call, whether the variable occurs in it or not,
and the first one with a fault ends it. Which fault that is can be read off
the nodes, since calls are checked from left to right, each before its
arguments. A derivative, on the other hand, has no faults at all: it is made
of nodes of the expression, of operations, of the numbers in the rules, and of
calls that the rules put together themselves.

## Main results

* `Expr.derivative_eq_error_iff`, `Expr.exists_derivative_iff` — the first
  fault decides how differentiation ends.
* `Expr.every_derivative` — what holds of the nodes of an expression and of
  what rules add holds of the nodes of its derivative.
-/

namespace Fluxion

/-- The fault of a call as differentiation reports it. -/
def CallFault.derivativeError : CallFault → DerivativeError
  | unknownFunction name => .unsupportedFunction name
  | argumentMismatch mismatch => .argumentMismatch mismatch

namespace Expr

/-! ## The first fault -/

/-- The first fault among the nodes. -/
def fault? (e : Expr) : Option CallFault :=
  e.nodes.findSome? Node.fault?

theorem fault?_eq_none_iff {e : Expr} : e.fault? = none ↔ e.Every (·.fault? = none) :=
  List.findSome?_eq_none_iff

theorem exists_of_fault?_eq_some {e : Expr} {fault : CallFault} (hFault : e.fault? = some fault) :
    ∃ node ∈ e.nodes, node.fault? = some fault :=
  List.exists_of_findSome?_eq_some hFault

theorem fault?_binary (op : Operator) (a b : Expr) :
    (binary op a b).fault? = a.fault?.or b.fault? := by
  rw [fault?, nodes, List.findSome?_cons_of_isNone rfl, List.findSome?_append]
  rfl

/-- A call is looked at before its arguments. -/
theorem fault?_call (function : String) (arguments : List Expr) :
    (call function arguments).fault? =
      (Node.call function arguments.length).fault?.or
        ((nodesAll arguments).findSome? Node.fault?) := by
  rw [fault?, nodes, List.findSome?_cons]
  cases (Node.call function arguments.length).fault? <;> rfl

/-- How differentiation ends, given the first fault, or else the derivative. -/
def verdict (fault : Option CallFault) (d : Expr) : Except DerivativeError Expr :=
  match fault with
  | some fault => .error fault.derivativeError
  | none => .ok d

private theorem verdict_map (fault : Option CallFault) (d : Expr) (rule : Expr → Expr) :
    (verdict fault d >>= fun d => .ok (rule d)) = verdict fault (rule d) := by
  cases fault <;> rfl

/-- The faults of one step come before those of the next. -/
private theorem verdict_bind (first : Option CallFault) {second : Option CallFault} {d d' : Expr}
    {next : Expr → Except DerivativeError Expr} (hNext : next d = verdict second d') :
    (verdict first d >>= next) = verdict (first.or second) d' := by
  cases first with
  | some fault => rfl
  | none => exact hNext

section

variable {wrt : String} {f : Function} {arguments : List Expr}

private theorem exists_rule_of_arity_one (wrt : String) (hArity : f.arity = 1) (u : Expr) :
    ∃ rule : Expr → Expr, derivative wrt (call f.name [u]) =
      derivative wrt u >>= fun du => .ok (rule du) := by
  rw [derivative, Function.ofName?_name]
  cases f with
  | sin | cos | tan | exp => exact ⟨_, rfl⟩
  | log => cases hArity

theorem derivative_log (u b : Expr) :
    derivative wrt (call Function.log.name [u, b]) =
      derivative wrt u >>= fun du => derivative wrt b >>= fun db => .ok (logRule u b du db) := by
  rw [derivative, Function.ofName?_name]
  rfl

theorem derivative_of_arity_ne (hArity : f.arity ≠ arguments.length) :
    derivative wrt (call f.name arguments) =
      .error (.argumentMismatch ⟨f, arguments.length⟩) := by
  rw [derivative, Function.ofName?_name]
  dsimp only
  split
  case h_6 => rfl
  all_goals exact absurd rfl hArity

private theorem exists_verdict_call
    (hArguments : ∀ u ∈ arguments, ∃ d, derivative wrt u = verdict u.fault? d) :
    ∃ d, derivative wrt (call f.name arguments) = verdict (call f.name arguments).fault? d := by
  rw [fault?_call, Node.fault?_call_name]
  by_cases hArity : f.arity = arguments.length
  · -- the call itself is in order, so only its arguments can have faults
    rw [if_pos hArity, Option.none_or]
    match arguments, hArity with
    | [], hArity => cases f <;> cases hArity
    | [u], hArity =>
        obtain ⟨du, hu⟩ := hArguments u (by simp)
        obtain ⟨rule, hRule⟩ := exists_rule_of_arity_one wrt hArity u
        refine ⟨rule du, ?_⟩
        rw [hRule, hu, verdict_map, nodesAll, nodesAll, List.append_nil, fault?]
    | [u, b], hArity =>
        obtain rfl : f = .log := by
          have hTwo : f.arity = 2 := hArity
          revert hTwo
          cases f <;> decide
        obtain ⟨du, hu⟩ := hArguments u (by simp)
        obtain ⟨db, hb⟩ := hArguments b (by simp)
        refine ⟨logRule u b du db, ?_⟩
        rw [derivative_log, hu, hb, nodesAll, nodesAll, nodesAll, List.append_nil,
          List.findSome?_append]
        exact verdict_bind _ (verdict_map _ db _)
    | u :: b :: c :: rest, hArity =>
        have hTwo : f.arity ≤ 2 := by cases f <;> decide
        simp only [List.length_cons] at hArity
        omega
  · rw [if_neg hArity]
    exact ⟨const 0, derivative_of_arity_ne hArity⟩

end

/-- **The first fault decides how differentiation ends.** -/
theorem exists_derivative_eq_verdict (wrt : String) (e : Expr) :
    ∃ d, derivative wrt e = verdict e.fault? d := by
  match e with
  | const _ => exact ⟨_, rfl⟩
  | var _ => exact ⟨_, rfl⟩
  | binary op a b =>
      obtain ⟨da, ha⟩ := exists_derivative_eq_verdict wrt a
      obtain ⟨db, hb⟩ := exists_derivative_eq_verdict wrt b
      refine ⟨operationRule op a b da db, ?_⟩
      rw [derivative, ha, hb, fault?_binary]
      exact verdict_bind _ (verdict_map _ db _)
  | call name arguments =>
      cases hName : Function.ofName? name with
      | none =>
          refine ⟨const 0, ?_⟩
          rw [derivative, fault?_call, Node.fault?, hName]
          rfl
      | some f =>
          obtain rfl := Function.name_of_ofName? hName
          exact exists_verdict_call fun u _ => exists_derivative_eq_verdict wrt u

variable {wrt : String} {e d : Expr}

/-- An error of differentiation is the first fault. -/
theorem derivative_eq_error_iff {error : DerivativeError} :
    derivative wrt e = .error error ↔
      ∃ fault, e.fault? = some fault ∧ error = fault.derivativeError := by
  obtain ⟨d, hd⟩ := exists_derivative_eq_verdict wrt e
  rw [hd]
  cases e.fault? with
  | some fault =>
      constructor
      · intro h
        cases h
        exact ⟨fault, rfl, rfl⟩
      · rintro ⟨_, hFault, rfl⟩
        cases hFault
        rfl
  | none =>
      constructor
      · intro h
        cases h
      · rintro ⟨_, hFault, -⟩
        cases hFault

/-- An expression has a derivative exactly if no node has a fault. -/
theorem exists_derivative_iff :
    (∃ d, derivative wrt e = .ok d) ↔ e.Every (·.fault? = none) := by
  obtain ⟨d, hd⟩ := exists_derivative_eq_verdict wrt e
  rw [hd, ← fault?_eq_none_iff]
  cases e.fault? with
  | some fault =>
      constructor
      · rintro ⟨_, h⟩
        cases h
      · intro h
        cases h
  | none => exact ⟨fun _ => rfl, fun _ => ⟨d, rfl⟩⟩

/-! ## The nodes of a derivative -/

/-- The property holds of whatever rules add to an expression. -/
structure AddedBy (P : Node → Prop) : Prop where
  operation (op : Operator) : P (.operation op)
  zero : P (.const 0)
  one : P (.const 1)
  two : P (.const 2)
  euler : P (.const euler)
  call (f : Function) : P (.call f.name f.arity)

section

variable {P : Node → Prop}

private theorem every_operationRule (hRules : AddedBy P) {op : Operator} {a b da db : Expr}
    (ha : a.Every P) (hb : b.Every P) (hda : da.Every P) (hdb : db.Every P) :
    (operationRule op a b da db).Every P := by
  have hOperation := hRules.operation
  cases op with
  | add | sub | mul | div => simp [operationRule, *]
  | pow =>
      have hLog : P (.call "log" 2) := hRules.call .log
      rw [operationRule]
      split <;> simp [hRules.one, hRules.euler, *]

private theorem every_callRule (hRules : AddedBy P) {f : Function} {arguments : List Expr}
    (hRule : CallRule wrt f arguments d) (hArguments : ∀ u ∈ arguments, u.Every P)
    (hDerivatives : ∀ u ∈ arguments, ∀ du, derivative wrt u = .ok du → du.Every P) :
    d.Every P := by
  have hOperation := hRules.operation
  have hSin : P (.call Function.sin.name 1) := hRules.call .sin
  have hCos : P (.call Function.cos.name 1) := hRules.call .cos
  have hExp : P (.call Function.exp.name 1) := hRules.call .exp
  have hLog : P (.call "log" 2) := hRules.call .log
  cases hRule with
  | @sin u du hu | @cos u du hu | @tan u du hu | @exp u du hu =>
      have hdu := hDerivatives u (by simp) du hu
      have hu := hArguments u (by simp)
      simp [hRules.zero, hRules.two, *]
  | @log u b du db hu hb =>
      have hdu := hDerivatives u (by simp) du hu
      have hdb := hDerivatives b (by simp) db hb
      have hu := hArguments u (by simp)
      have hb := hArguments b (by simp)
      simp [logRule, hRules.two, hRules.euler, *]

/-- **The nodes of a derivative** are nodes of the expression or added by
rules. -/
theorem every_derivative {e d : Expr} (hRules : AddedBy P) (hEvery : e.Every P)
    (hDerivative : derivative wrt e = .ok d) : d.Every P := by
  match e with
  | const _ =>
      cases hDerivative
      simp [hRules.zero]
  | var name =>
      rw [derivative] at hDerivative
      cases hDerivative
      split <;> simp [hRules.zero, hRules.one]
  | binary op a b =>
      obtain ⟨da, db, hda, hdb, rfl⟩ := exists_of_derivative_binary hDerivative
      obtain ⟨-, ha, hb⟩ := (every_binary op a b).1 hEvery
      exact every_operationRule hRules ha hb (every_derivative hRules ha hda)
        (every_derivative hRules hb hdb)
  | call name arguments =>
      obtain ⟨f, -, hRule⟩ := exists_of_derivative_call hDerivative
      obtain ⟨-, hArguments⟩ := (every_call name arguments).1 hEvery
      exact every_callRule hRules hRule hArguments fun u hu du hdu =>
        every_derivative hRules (hArguments u hu) hdu

end

/-- A derivative has no faults. -/
theorem faultless_derivative (hDerivative : derivative wrt e = .ok d) :
    d.Every (·.fault? = none) := by
  have hRules : AddedBy (·.fault? = none) :=
    ⟨fun _ => rfl, rfl, rfl, rfl, rfl, fun f => by rw [Node.fault?_call_name, if_pos rfl]⟩
  exact every_derivative hRules (exists_derivative_iff.1 ⟨d, hDerivative⟩) hDerivative

/-- A derivative has no variables that the expression does not have. -/
theorem vars_derivative_subset (hDerivative : derivative wrt e = .ok d) :
    d.vars ⊆ e.vars := by
  have hRules : AddedBy fun node => ∀ name, node = .var name → name ∈ e.vars :=
    ⟨by simp, by simp, by simp, by simp, by simp, by simp⟩
  have hEvery : e.Every fun node => ∀ name, node = .var name → name ∈ e.vars := by
    rintro node hNode name rfl
    exact mem_vars.2 hNode
  intro name hName
  exact every_derivative hRules hEvery hDerivative _ (mem_vars.1 hName) name rfl

end Expr

end Fluxion
