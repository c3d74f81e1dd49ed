import Fluxion.Calculation
import Fluxion.Proofs.Course
import Fluxion.Proofs.Faults
import Fluxion.Proofs.Provenance

/-!
# How calculations end

What is read calls only functions, though it may give them any number of
arguments; differentiation finds that out, in whatever corner of the expression
it is; and what differentiation makes cannot fail for anything but the want of
a value. Each step leaves the next one fewer ways to go wrong, and in the end a
calculation has four ways to end.

## Main results

* `Calculation.underivable_of_parse` — what is read can fail to have a
  derivative for one reason only.
* `Session.ending_run` — the four ways, with what has been said and asked by
  then.
* `Session.ending_run_sources` — a source for each of them, with its output.
-/

namespace Fluxion

/-- The names in a source. -/
def namesIn (source : List Char) : List String :=
  match Token.ofSource? source with
  | .error _ => []
  | .ok ts => (ts.filter (·.kind = .name)).map Token.text

namespace Calculation

open Fluxion.Expr

variable {source : List Char} {e d : Expr}

/-- The name is a variable of the expression that was read from the source. -/
structure MayAsk (source : List Char) (e : Expr) (name : String) : Prop where
  mem_vars : name ∈ e.vars
  mem_source : name ∈ namesIn source
  ne_pi : name ≠ "pi"
  ne_euler : name ≠ "e"

theorem mayAsk_of_parse {name : String} (hRead : parse source = .ok e) (hName : name ∈ e.vars) :
    MayAsk source e name := by
  obtain ⟨hNone, ts, t, hTokens, hMem, hKind, rfl⟩ := of_mem_vars_of_parse hRead hName
  obtain ⟨hPi, hEuler⟩ := constant?_eq_none_iff.1 hNone
  refine ⟨hName, ?_, hPi, hEuler⟩
  rw [namesIn, hTokens]
  exact List.mem_map_of_mem (List.mem_filter.2 ⟨hMem, decide_eq_true hKind⟩)

/-- Evaluating the derivative of what was read needs no other names. -/
theorem mayAsk_of_derivative {name : String} (hRead : parse source = .ok e)
    (hDerivative : e.derivative mainVariable = .ok d) (hName : name ∈ d.vars) :
    MayAsk source e name :=
  mayAsk_of_parse hRead (vars_derivative_subset hDerivative hName)

/-- What is read calls only functions, so it has a derivative unless some call
has the wrong number of arguments. -/
theorem underivable_of_parse {error : DerivativeError} (hRead : parse source = .ok e)
    (hDerivative : e.derivative mainVariable = .error error) :
    ∃ mismatch, error = .argumentMismatch mismatch := by
  obtain ⟨fault, hFault, rfl⟩ := derivative_eq_error_iff.1 hDerivative
  obtain ⟨node, hNode, hFault⟩ := exists_of_fault?_eq_some hFault
  cases node with
  | const | var | operation => cases hFault
  | call function given =>
      have hFunction : (Function.ofName? function).isSome := readable_of_parse hRead _ hNode
      obtain ⟨f, hName⟩ := Option.isSome_iff_exists.1 hFunction
      rw [Node.fault?, hName] at hFault
      dsimp only at hFault
      split at hFault
      · cases hFault
      · cases hFault
        exact ⟨_, rfl⟩

end Calculation

namespace Session

open Fluxion.Expr Calculation

variable {σ : Type}

/-- The session once both expressions have been shown. -/
def shown (s : Session σ) (e d : Expr) : Session σ :=
  { s with
    said := s.said ++ ("TREE:\n" ++ e.outlineText ++ "\n") ++
      ("DERIVATIVE:\n" ++ d.outlineText ++ "\n") }

/-- The ways in which the calculation for a source may end, begun in the
session `s`, and the session then. -/
inductive Ending (s : Session σ) (source : List Char) :
    Except Failure Unit × Session σ → Prop where
  /-- The source is no expression. Nothing has been written and nobody has been
  asked. -/
  | unreadable {error : ParseError} (hRead : parse source = .error error) :
      Ending s source (.error (.unreadable error), s)
  /-- A call has the wrong number of arguments. The expression has been shown
  and nobody has been asked. -/
  | underivable {e : Expr} {mismatch : ArgumentMismatch} (hRead : parse source = .ok e)
      (hDerivative : e.derivative "x" = .error (.argumentMismatch mismatch)) :
      Ending s source
        (.error (.underivable (.argumentMismatch mismatch)),
          { s with said := s.said ++ ("TREE:\n" ++ e.outlineText ++ "\n") })
  /-- The value of a variable is missing. Both expressions have been shown. -/
  | valueless {e d : Expr} {name : String} {names : List String} {s' : Session σ}
      (hRead : parse source = .ok e) (hDerivative : e.derivative "x" = .ok d)
      (hEval : (s.shown e d).eval d = (.error (.undefinedVariable name), s'))
      (hName : MayAsk source e name)
      (hSaid : s'.said = s.said ++ ("TREE:\n" ++ e.outlineText ++ "\n") ++
        ("DERIVATIVE:\n" ++ d.outlineText ++ "\n"))
      (hAsked : s'.asked = s.asked ++ names) (hNames : ∀ name ∈ names, MayAsk source e name) :
      Ending s source (.error (.valueless (.undefinedVariable name)), s')
  /-- There is a result. Both expressions have been shown, and so is the
  result, with five places. -/
  | finished {e d : Expr} {value : Float} {names : List String} {s' : Session σ}
      (hRead : parse source = .ok e) (hDerivative : e.derivative "x" = .ok d)
      (hEval : (s.shown e d).eval d = (.ok value, s'))
      (hAsked : s'.asked = s.asked ++ names) (hNames : ∀ name ∈ names, MayAsk source e name) :
      Ending s source
        (.ok (),
          { s' with
            said := s.said ++ ("TREE:\n" ++ e.outlineText ++ "\n") ++
              ("DERIVATIVE:\n" ++ d.outlineText ++ "\n") ++
              ("result = " ++ String.ofList (Number.fixed 5 value) ++ "\n") })

/-! ### Holding a calculation -/

section

variable {s : Session σ} {source : List Char}

theorem hold_run_unreadable {error : ParseError} (hRead : parse source = .error error) :
    s.hold (run s.bindings source) = (.error (.unreadable error), s) := by
  rw [run, hRead]
  rfl

theorem hold_run_underivable {e : Expr} {error : DerivativeError} (hRead : parse source = .ok e)
    (hDerivative : e.derivative mainVariable = .error error) :
    s.hold (run s.bindings source) =
      (.error (.underivable error), s.listen (expressionReport e)) := by
  rw [run, hRead]
  dsimp only
  rw [hDerivative]
  rfl

/-- Once both expressions have been shown, a calculation is an evaluation. -/
theorem hold_run_derivable {e d : Expr} (hRead : parse source = .ok e)
    (hDerivative : e.derivative mainVariable = .ok d) :
    s.hold (run s.bindings source) =
      match (s.shown e d).eval d with
      | (.error error, s') => (.error (.valueless error), s')
      | (.ok value, s') => (.ok (), s'.listen (resultReport value)) := by
  rw [run, hRead]
  dsimp only
  rw [hDerivative, hold_say, hold_say, hold_bind]
  have hEval : ((s.listen (expressionReport e)).listen (derivativeReport d)).hold
      (d.eval s.bindings).run = (s.shown e d).eval d := rfl
  rw [hEval]
  obtain ⟨outcome, s'⟩ := (s.shown e d).eval d
  cases outcome <;> rfl

end

/-- **A calculation ends in one of the four ways.** -/
theorem ending_run (s : Session σ) (source : List Char) :
    s.Ending source (s.hold (run s.bindings source)) := by
  cases hRead : parse source with
  | error error =>
      rw [hold_run_unreadable hRead]
      exact .unreadable hRead
  | ok e =>
      cases hDerivative : e.derivative mainVariable with
      | error error =>
          obtain ⟨mismatch, rfl⟩ := underivable_of_parse hRead hDerivative
          rw [hold_run_underivable hRead hDerivative]
          exact .underivable hRead hDerivative
      | ok d =>
          obtain ⟨hSaid, names, hAsked, hNames⟩ := (s.shown e d).frame_eval d
          have hMayAsk : ∀ name ∈ names, MayAsk source e name := fun name hName =>
            mayAsk_of_derivative hRead hDerivative (hNames name hName).1
          have hOutcome := (s.shown e d).eval_of_faultless (faultless_derivative hDerivative)
          rw [hold_run_derivable hRead hDerivative]
          generalize hEval : (s.shown e d).eval d = ended at hSaid hAsked hOutcome
          obtain ⟨outcome, s'⟩ := ended
          obtain ⟨value, rfl⟩ | ⟨name, hName, -, rfl⟩ := hOutcome
          · -- nothing was said while the derivative was evaluated
            have hResult : s'.listen (resultReport value) =
                { s' with said := (s.shown e d).said ++ resultReport value } := by
              rw [listen, hSaid]
            show s.Ending source (.ok (), s'.listen (resultReport value))
            rw [hResult]
            exact .finished hRead hDerivative hEval hAsked hMayAsk
          · exact .valueless hRead hDerivative hEval
              (mayAsk_of_derivative hRead hDerivative hName) hSaid hAsked hMayAsk

/-- The four ways, with `x` bound to five and somebody there who knows nothing. -/
theorem ending_run_sources :
    let s : Session Unit :=
      ⟨Bindings.empty.insert "x" 5, some fun _ memory => (none, memory), (), [], ""⟩
    let ended (source : String) := s.hold (run s.bindings source.toList)
    (s.Ending "x*".toList (ended "x*") ∧
      (ended "x*").1 = .error (.unreadable ⟨⟨1, 2⟩, .emptyExpression⟩) ∧
      (ended "x*").2.said = "" ∧ (ended "x*").2.asked = []) ∧
    (s.Ending "sin()*2".toList (ended "sin()*2") ∧
      (ended "sin()*2").1 = .error (.underivable (.argumentMismatch ⟨.sin, 0⟩)) ∧
      (ended "sin()*2").2.said = "TREE:\n*\n  sin()\n  2\n" ∧ (ended "sin()*2").2.asked = []) ∧
    (s.Ending "x*y".toList (ended "x*y") ∧
      (ended "x*y").1 = .error (.valueless (.undefinedVariable "y")) ∧
      (ended "x*y").2.said =
        "TREE:\n*\n  x\n  y\n" ++
          "DERIVATIVE:\n+\n  *\n    1\n    y\n  *\n    x\n    0\n" ∧
      (ended "x*y").2.asked = ["y"]) ∧
    (s.Ending "x*x".toList (ended "x*x") ∧ (ended "x*x").1 = .ok () ∧
      (ended "x*x").2.said =
        "TREE:\n*\n  x\n  x\n" ++
          "DERIVATIVE:\n+\n  *\n    1\n    x\n  *\n    x\n    1\n" ++ "result = 10.00000\n" ∧
      (ended "x*x").2.asked = []) := by
  intro s ended
  refine ⟨⟨s.ending_run _, ?_, ?_, ?_⟩, ⟨s.ending_run _, ?_, ?_, ?_⟩,
    ⟨s.ending_run _, ?_, ?_, ?_⟩, s.ending_run _, ?_, ?_, ?_⟩
  all_goals decide +kernel

end Session

end Fluxion
