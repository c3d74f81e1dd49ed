import Fluxion.Expr.Evaluate
import Fluxion.Proofs.Nodes

/-!
# Evaluation is a scan of the nodes

Evaluation is defined along the structure of an expression, and it asks while
it goes. Whoever answers sees nothing of that structure. A `Session` is
everything on the other side of a dialogue: the bindings, somebody who may be
asked and may answer out of a memory of their own, and a record of what was
asked and said. Held in a session, evaluation looks at the nodes one after the
other, once each, and stops at the first one it cannot get past; the operators
and functions only put together afterwards what was found.

## Main definitions

* `Session.hold` — holds a dialogue in a session.
* `Session.scan` — looks at a list of nodes, from left to right.
* `Expr.valueAt` — the value of an expression whose variables have the given
  values, occurrence by occurrence.

## Main results

* `Session.scan_append` — a scan is followed through from part to part.
* `Session.eval_eq_scan` — evaluation is the scan.
-/

namespace Fluxion

/-! ## Sessions -/

/-- What a dialogue is held with. -/
structure Session (σ : Type) where
  bindings : Bindings
  /-- Who is asked, if there is anybody: answers a name out of a memory, and
  leaves a memory behind. -/
  resolver : Option (String → σ → Option Float × σ)
  memory : σ
  /-- The names asked so far. -/
  asked : List String
  /-- What has been said so far. -/
  said : String

namespace Session

variable {σ α β : Type}

/-- Takes down what is said. -/
def listen (text : String) (s : Session σ) : Session σ :=
  { s with said := s.said ++ text }

/-- Asks for the value of a name. With nobody to ask there is none. -/
def ask (name : String) (s : Session σ) : Option Float × Session σ :=
  match s.resolver with
  | none => (none, s)
  | some answer =>
    let (value, memory) := answer name s.memory
    (value, { s with memory, asked := s.asked ++ [name] })

/-- Holds a dialogue. -/
def held (d : Dialogue α) : StateM (Session σ) α :=
  d.play (fun text => modify (listen text)) (fun name => modifyGet (ask name))

/-- The result of a dialogue held in a session, and the session after it. -/
def hold (s : Session σ) (d : Dialogue α) : α × Session σ :=
  (held d).run s

/-- Evaluates an expression in a session. -/
def eval (s : Session σ) (e : Expr) : Except EvalError Float × Session σ :=
  s.hold (e.eval s.bindings).run

/-! ### Holding dialogues -/

@[simp] theorem hold_done (s : Session σ) (a : α) : s.hold (.done a) = (a, s) := rfl

@[simp] theorem hold_say (s : Session σ) (text : String) (d : Dialogue α) :
    s.hold (.say text d) = (s.listen text).hold d := rfl

@[simp] theorem hold_ask (s : Session σ) (name : String) (next : Option Float → Dialogue α) :
    s.hold (.ask name next) = (s.ask name).2.hold (next (s.ask name).1) := rfl

theorem hold_bind (s : Session σ) (d : Dialogue α) (f : α → Dialogue β) :
    s.hold (d >>= f) = (s.hold d).2.hold (f (s.hold d).1) := by
  rw [hold, held, Dialogue.play_bind]
  rfl

/-- One evaluation after another: the second one needs the value of the
first. -/
theorem hold_run_bind (s : Session σ) (x : Evaluation α) (f : α → Evaluation β) :
    s.hold (x >>= f).run =
      match s.hold x.run with
      | (.ok a, s') => s'.hold (f a).run
      | (.error e, s') => (.error e, s') := by
  rw [ExceptT.run_bind, hold_bind]
  obtain ⟨outcome, s'⟩ := s.hold x.run
  cases outcome <;> rfl

theorem bindings_ask (s : Session σ) (name : String) : (s.ask name).2.bindings = s.bindings := by
  unfold ask
  split <;> rfl

theorem resolver_ask (s : Session σ) (name : String) : (s.ask name).2.resolver = s.resolver := by
  unfold ask
  split <;> rfl

/-- A dialogue changes neither the bindings nor who is asked. -/
theorem frame_hold (s : Session σ) (d : Dialogue α) :
    (s.hold d).2.bindings = s.bindings ∧ (s.hold d).2.resolver = s.resolver := by
  induction d generalizing s with
  | done a => exact ⟨rfl, rfl⟩
  | say text d ih => exact ih (s.listen text)
  | ask name next ih =>
      obtain ⟨hBindings, hResolver⟩ := ih (s.ask name).1 (s.ask name).2
      exact ⟨hBindings.trans (s.bindings_ask name), hResolver.trans (s.resolver_ask name)⟩

end Session

/-! ## Scans -/

/-- The fault of a call as evaluation reports it. -/
def CallFault.evalError : CallFault → EvalError
  | unknownFunction name => .undefinedFunction name
  | argumentMismatch mismatch => .argumentMismatch mismatch

namespace Session

variable {σ : Type}

/-- Looks a name up: among the constants, then among the bindings, and asks
only if neither has it. -/
def lookUp (s : Session σ) (name : String) : Option Float × Session σ :=
  match constant? name with
  | some value => (some value, s)
  | none =>
    match s.bindings.get? name with
    | some value => (some value, s)
    | none => s.ask name

/-- Looks at nodes one after the other. A call is checked, a variable looked
up, and what goes wrong first ends the scan; if nothing does, the result is
the values of the variables in order. -/
def scan (s : Session σ) : List Node → Except EvalError (List Float) × Session σ
  | [] => (.ok [], s)
  | .const _ :: rest | .operation _ :: rest => s.scan rest
  | .call function given :: rest =>
    match (Node.call function given).fault? with
    | some fault => (.error fault.evalError, s)
    | none => s.scan rest
  | .var name :: rest =>
    match s.lookUp name with
    | (none, s) => (.error (.undefinedVariable name), s)
    | (some value, s) =>
      let (outcome, s) := s.scan rest
      (outcome.map (value :: ·), s)

/-- A scan goes on behind a part that it gets through. -/
theorem scan_append (s : Session σ) (front back : List Node) :
    s.scan (front ++ back) =
      match s.scan front with
      | (.ok values, s') => ((s'.scan back).1.map (values ++ ·), (s'.scan back).2)
      | (.error e, s') => (.error e, s') := by
  induction front generalizing s with
  | nil =>
      show s.scan back = ((s.scan back).1.map ([] ++ ·), (s.scan back).2)
      obtain ⟨outcome, s'⟩ := s.scan back
      cases outcome <;> rfl
  | cons node front ih =>
      cases node with
      | const value => exact ih s
      | operation op => exact ih s
      | call function given =>
          simp only [List.cons_append, scan]
          cases (Node.call function given).fault? with
          | some fault => rfl
          | none => exact ih s
      | var name =>
          simp only [List.cons_append, scan]
          obtain ⟨answer, s'⟩ := s.lookUp name
          cases answer with
          | none => rfl
          | some value =>
              simp only [ih s']
              obtain ⟨outcome, s''⟩ := s'.scan front
              cases outcome with
              | error e => rfl
              | ok values => cases hBack : (s''.scan back).1 <;> simp [Except.map, hBack]

/-- A scan that gets through has found a value for every variable. -/
theorem length_of_scan {s s' : Session σ} {nodes : List Node} {values : List Float}
    (hScan : s.scan nodes = (.ok values, s')) :
    values.length = (nodes.filterMap Node.variable?).length := by
  induction nodes generalizing s values with
  | nil =>
      cases hScan
      rfl
  | cons node rest ih =>
      cases node with
      | const value => exact ih hScan
      | operation op => exact ih hScan
      | call function given =>
          rw [scan] at hScan
          split at hScan
          · cases hScan
          · exact ih hScan
      | var name =>
          rw [scan] at hScan
          split at hScan
          · cases hScan
          · next value s'' _ =>
              obtain ⟨outcome, hRest⟩ : ∃ outcome, s''.scan rest = outcome := ⟨_, rfl⟩
              obtain ⟨outcome, last⟩ := outcome
              rw [hRest] at hScan
              cases outcome with
              | error e => cases hScan
              | ok others =>
                  cases hScan
                  exact congrArg (· + 1) (ih hRest)

end Session

/-! ## Values -/

/-- The value of a call that goes through; other calls are given zero. -/
def applied (function : String) (values : List Float) : Float :=
  match function, values with
  | "sin", [x] => x.sin
  | "cos", [x] => x.cos
  | "tan", [x] => x.tan
  | "exp", [x] => x.exp
  | "log", [x, base] => x.log / base.log
  | _, _ => 0

theorem applied_of_apply {f : Function} {values : List Float} {value : Float}
    (hValue : f.apply values = .ok value) : applied f.name values = value := by
  unfold Function.apply at hValue
  split at hValue <;> cases hValue <;> rfl

/-- The value of an operation on two numbers. -/
def operated (op : Operator) (a b : Float) : Float :=
  match op with
  | .add => a + b
  | .sub => a - b
  | .mul => a * b
  | .div => a / b
  | .pow => a.pow b

theorem apply_eq_operated (op : Operator) (a b : Float) : op.apply a b = operated op a b := by
  cases op <;> rfl

namespace Expr

mutual

/-- The value of an expression whose variables have the given values, one for
each occurrence, from left to right. -/
def valueAt : Expr → List Float → Float
  | const value, _ => value
  | var _, values => values.headD 0
  | binary op left right, values =>
    operated op (left.valueAt (values.take left.vars.length))
      (right.valueAt (values.drop left.vars.length))
  | call function arguments, values => applied function (valuesAt arguments values)

/-- The values of several expressions, which share out the given values in
order. -/
def valuesAt : List Expr → List Float → List Float
  | [], _ => []
  | e :: rest, values =>
    e.valueAt (values.take e.vars.length) :: valuesAt rest (values.drop e.vars.length)

end

end Expr

/-! ## Evaluation -/

namespace Session

open Fluxion.Expr

variable {σ : Type}

/-- Evaluates several expressions in a session, in order. -/
def evalAll (s : Session σ) (es : List Expr) : Except EvalError (List Float) × Session σ :=
  s.hold (Expr.evalAll s.bindings es).run

theorem hold_resolve (s : Session σ) (name : String) :
    s.hold (s.bindings.resolve name) = s.lookUp name := by
  rw [lookUp]
  cases hConstant : constant? name with
  | some value => rw [Bindings.resolve_of_constant hConstant, hold_done]
  | none =>
      cases hBound : s.bindings.get? name with
      | some value => rw [Bindings.resolve_of_bound hConstant hBound, hold_done]
      | none => rw [Bindings.resolve_of_unbound hConstant hBound, hold_ask, hold_done]

theorem eval_var (s : Session σ) (name : String) :
    s.eval (.var name) =
      match s.lookUp name with
      | (some value, s') => (.ok value, s')
      | (none, s') => (.error (.undefinedVariable name), s') := by
  have hLift : s.hold (liftM (s.bindings.resolve name) : Evaluation (Option Float)).run =
      (.ok (s.lookUp name).1, (s.lookUp name).2) := by
    rw [← hold_resolve]
    exact s.hold_bind (s.bindings.resolve name) fun answer => .done (Except.ok answer)
  rw [eval, Expr.eval, Evaluation.ofVariable, hold_run_bind, hLift]
  obtain ⟨answer, s'⟩ := s.lookUp name
  cases answer <;> rfl

theorem eval_binary (s : Session σ) (op : Operator) (left right : Expr) :
    s.eval (.binary op left right) =
      match s.eval left with
      | (.error e, s') => (.error e, s')
      | (.ok a, s') => ((s'.eval right).1.map (op.apply a ·), (s'.eval right).2) := by
  have hFrame := (s.frame_hold (left.eval s.bindings).run).1
  rw [eval, Expr.eval, hold_run_bind, eval]
  generalize s.hold (left.eval s.bindings).run = held at hFrame
  obtain ⟨outcome, s'⟩ := held
  cases outcome with
  | error e => rfl
  | ok a =>
      have hBindings : s'.bindings = s.bindings := hFrame
      simp only [eval, hBindings, hold_run_bind]
      obtain ⟨outcome, s''⟩ := s'.hold (right.eval s.bindings).run
      cases outcome <;> rfl

theorem evalAll_nil (s : Session σ) : s.evalAll [] = (.ok [], s) := by
  rw [evalAll, Expr.evalAll]
  rfl

theorem evalAll_cons (s : Session σ) (e : Expr) (rest : List Expr) :
    s.evalAll (e :: rest) =
      match s.eval e with
      | (.error err, s') => (.error err, s')
      | (.ok a, s') => ((s'.evalAll rest).1.map (a :: ·), (s'.evalAll rest).2) := by
  have hFrame := (s.frame_hold (e.eval s.bindings).run).1
  rw [evalAll, Expr.evalAll, hold_run_bind, eval]
  generalize s.hold (e.eval s.bindings).run = held at hFrame
  obtain ⟨outcome, s'⟩ := held
  cases outcome with
  | error e => rfl
  | ok a =>
      have hBindings : s'.bindings = s.bindings := hFrame
      simp only [evalAll, hBindings, hold_run_bind]
      obtain ⟨outcome, s''⟩ := s'.hold (Expr.evalAll s.bindings rest).run
      cases outcome <;> rfl

theorem length_of_evalAll {s s' : Session σ} {es : List Expr} {values : List Float}
    (hValues : s.evalAll es = (.ok values, s')) : values.length = es.length := by
  induction es generalizing s values with
  | nil =>
      rw [evalAll_nil] at hValues
      cases hValues
      rfl
  | cons e rest ih =>
      rw [evalAll_cons] at hValues
      split at hValues
      · cases hValues
      · next a s'' _ =>
          generalize hRest : s''.evalAll rest = tail at hValues
          obtain ⟨outcome, last⟩ := tail
          cases outcome with
          | error e => cases hValues
          | ok others =>
              cases hValues
              exact congrArg (· + 1) (ih hRest)

@[simp] theorem hold_ofCall_ok {α : Type} (s : Session σ) (a : α) :
    s.hold (Evaluation.ofCall (.ok a)).run = (.ok a, s) := rfl

@[simp] theorem hold_ofCall_error {α : Type} (s : Session σ) (mismatch : ArgumentMismatch) :
    s.hold (Evaluation.ofCall (.error mismatch) : Evaluation α).run =
      (.error (.argumentMismatch mismatch), s) := rfl

/-- A call is checked before its arguments are evaluated, and goes through
once they are. -/
theorem eval_call (s : Session σ) (function : String) (arguments : List Expr) :
    s.eval (.call function arguments) =
      match (Node.call function arguments.length).fault? with
      | some fault => (.error fault.evalError, s)
      | none => ((s.evalAll arguments).1.map (applied function), (s.evalAll arguments).2) := by
  rw [eval, Expr.eval, Node.fault?]
  cases hName : Function.ofName? function with
  | none => rfl
  | some f =>
      by_cases hArity : f.arity = arguments.length
      · simp only [hold_run_bind, Function.checkArity, if_pos hArity, hold_ofCall_ok]
        generalize hValues : s.evalAll arguments = held
        rw [evalAll] at hValues
        rw [hValues]
        obtain ⟨outcome, s'⟩ := held
        cases outcome with
        | error e => rfl
        | ok values =>
            have hCount : f.checkArity values.length = .ok () := by
              rw [Function.checkArity, length_of_evalAll hValues, if_pos hArity]
            obtain ⟨value, hValue⟩ := (f.apply_isOk_iff values).2 hCount
            rw [← applied_of_apply hValue, Function.name_of_ofName? hName] at hValue
            simp only [hValue, hold_ofCall_ok]
            rfl
      · simp only [hold_run_bind, Function.checkArity, if_neg hArity, hold_ofCall_error]
        rfl

/-! ### Evaluation along the nodes -/

mutual

/-- **Evaluation is the scan of the nodes.** -/
theorem eval_eq_scan (s : Session σ) (e : Expr) :
    s.eval e = ((s.scan e.nodes).1.map e.valueAt, (s.scan e.nodes).2) := by
  cases e with
  | const value => rfl
  | var name =>
      rw [eval_var, nodes, scan]
      obtain ⟨answer, s'⟩ := s.lookUp name
      cases answer <;> rfl
  | binary op left right =>
      rw [eval_binary, s.eval_eq_scan left, nodes, scan, scan_append]
      generalize hFront : s.scan left.nodes = front
      obtain ⟨outcome, s'⟩ := front
      cases outcome with
      | error e => rfl
      | ok values =>
          -- the left operand has used up as many values as it has variables
          have hLength : values.length = left.vars.length := length_of_scan hFront
          simp only [Except.map, s'.eval_eq_scan right]
          obtain ⟨outcome, s''⟩ := s'.scan right.nodes
          cases outcome with
          | error e => rfl
          | ok others => simp [valueAt, apply_eq_operated, ← hLength]
  | call function arguments =>
      rw [eval_call, nodes, scan, s.evalAll_eq_scan arguments]
      cases (Node.call function arguments.length).fault? with
      | some fault => rfl
      | none =>
          obtain ⟨outcome, s'⟩ := s.scan (nodesAll arguments)
          cases outcome <;> rfl

theorem evalAll_eq_scan (s : Session σ) (es : List Expr) :
    s.evalAll es = ((s.scan (nodesAll es)).1.map (valuesAt es), (s.scan (nodesAll es)).2) := by
  cases es with
  | nil => exact s.evalAll_nil
  | cons e rest =>
      rw [evalAll_cons, s.eval_eq_scan e, nodesAll, scan_append]
      generalize hFront : s.scan e.nodes = front
      obtain ⟨outcome, s'⟩ := front
      cases outcome with
      | error e => rfl
      | ok values =>
          have hLength : values.length = e.vars.length := length_of_scan hFront
          simp only [Except.map, s'.evalAll_eq_scan rest]
          obtain ⟨outcome, s''⟩ := s'.scan (nodesAll rest)
          cases outcome with
          | error e => rfl
          | ok others => simp [valuesAt, ← hLength]

end

end Session

end Fluxion
