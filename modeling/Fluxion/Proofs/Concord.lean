import Fluxion.Proofs.Course
import Fluxion.Proofs.Faults

/-!
# Evaluation and differentiation find the same fault

Evaluation looks at calls on its way to a value, differentiation on its way to
a derivative. The two recursions have nothing in common but the functions they
know, and yet both end at the first fault among the nodes, read from left to
right. The one thing that can come before a fault in an evaluation is a
question that is declined; a session that supplies every variable with a value
declines none, and there the two agree.

## Main results

* `Session.supplies_of_vars` — what is enough for a session to supply an
  expression.
* `Session.eval_of_supplies` — how evaluation ends if no question is declined.
* `Session.derivative_iff_eval` — differentiation and evaluation end alike.
-/

namespace Fluxion.Session

open Fluxion.Expr

variable {σ : Type}

/-! ## Sessions that supply all values -/

/-- Every variable of the expression gets a value: asked one after the other,
the questions of all nodes are answered. -/
def Supplies (s : Session σ) (e : Expr) : Prop :=
  ∀ answer ∈ (s.askAll (questions s.bindings e.nodes)).1, answer.isSome

theorem askAll_append (s : Session σ) (front back : List String) :
    s.askAll (front ++ back) =
      ((s.askAll front).1 ++ ((s.askAll front).2.askAll back).1,
        ((s.askAll front).2.askAll back).2) := by
  induction front generalizing s with
  | nil => rfl
  | cons name front ih => simp only [List.cons_append, askAll, ih]

private theorem isSome_of_mem_askAll {answer : String → σ → Option Float × σ} {names : List String}
    (hAnswers : ∀ name ∈ names, ∀ memory, (answer name memory).1.isSome) {s : Session σ}
    (hResolver : s.resolver = some answer) : ∀ value ∈ (s.askAll names).1, value.isSome := by
  induction names generalizing s with
  | nil => simp [askAll]
  | cons name rest ih =>
      have hFirst : (s.ask name).1.isSome := by
        rw [ask, hResolver]
        exact hAnswers name (by simp) s.memory
      have hRest := ih (fun other hMem => hAnswers other (by simp [hMem]))
        ((s.resolver_ask name).trans hResolver)
      intro value hValue
      rcases List.mem_cons.1 hValue with rfl | hMem
      · exact hFirst
      · exact hRest value hMem

/-- A session supplies an expression if each of its variables is a constant, is
bound, or has a value for whoever is asked, whatever was asked before. -/
theorem supplies_of_vars {s : Session σ} {e : Expr}
    (hVars : ∀ name ∈ e.vars, s.bindings.known? name = none →
      ∃ answer, s.resolver = some answer ∧ ∀ memory, (answer name memory).1.isSome) :
    s.Supplies e := by
  have hQuestions : ∀ name ∈ questions s.bindings e.nodes,
      ∃ answer, s.resolver = some answer ∧ ∀ memory, (answer name memory).1.isSome := by
    intro name hName
    have hQuestion := mem_questions.1 hName
    exact hVars name (mem_vars.2 hQuestion.1) hQuestion.2
  unfold Supplies
  cases hResolver : s.resolver with
  | none =>
      -- then there is no question at all
      have hNone : questions s.bindings e.nodes = [] := by
        refine List.eq_nil_iff_forall_not_mem.2 fun name hName => ?_
        have ⟨answer, hAnswer, _⟩ := hQuestions name hName
        rw [hResolver] at hAnswer
        cases hAnswer
      rw [hNone]
      simp [askAll]
  | some answer =>
      refine isSome_of_mem_askAll (fun name hName memory => ?_) hResolver
      have ⟨other, hOther, hAnswers⟩ := hQuestions name hName
      rw [hResolver, Option.some.injEq] at hOther
      rw [hOther]
      exact hAnswers memory

/-! ## How evaluation ends -/

/-- A fault with nothing wrong before it is the first one. -/
private theorem fault?_of_nodes {e : Expr} {before after : List Node} {node : Node}
    {fault : CallFault} (hNodes : e.nodes = before ++ node :: after)
    (hFaultless : ∀ node ∈ before, node.fault? = none) (hFault : node.fault? = some fault) :
    e.fault? = some fault := by
  have hBefore : before.findSome? Node.fault? = none := List.findSome?_eq_none_iff.2 hFaultless
  rw [Expr.fault?, hNodes, List.findSome?_append, hBefore, Option.none_or,
    List.findSome?_cons, hFault]

/-- The answers to the questions of the nodes seen come first among the
answers to all of them, so a session that supplies the expression has not
declined any. -/
private theorem isSome_of_course {s : Session σ} {e : Expr} (hSupplies : s.Supplies e)
    {seen : List Node} (hSeen : seen <+: e.nodes) :
    ∀ answer ∈ (s.askAll (questions s.bindings seen)).1, answer.isSome := by
  obtain ⟨rest, hRest⟩ := hSeen
  have hQuestions : questions s.bindings e.nodes =
      questions s.bindings seen ++ questions s.bindings rest := by
    rw [← hRest, questions, List.filterMap_append]
    rfl
  rw [Supplies, hQuestions, askAll_append] at hSupplies
  intro answer hAnswer
  exact hSupplies answer (List.mem_append_left _ hAnswer)

/-- **How evaluation ends if every variable gets a value**: at the first fault,
or with a value. -/
theorem eval_of_supplies {s : Session σ} {e : Expr} (hSupplies : s.Supplies e) :
    (e.fault? = none ∧ ∃ value, (s.eval e).1 = .ok value) ∨
      ∃ fault, e.fault? = some fault ∧ (s.eval e).1 = .error fault.evalError := by
  obtain ⟨seen, answers, hCourse, hAsk⟩ := s.course_scan e.nodes
  have hAnswered := isSome_of_course hSupplies hCourse.seen_prefix
  rw [hAsk] at hAnswered
  rw [eval_eq_scan]
  generalize (s.scan e.nodes).1 = outcome at hCourse
  cases hCourse with
  | through heard hFaultless => exact .inl ⟨fault?_eq_none_iff.2 hFaultless, _, rfl⟩
  | fault before heard hNodes hFaultless hFault =>
      exact .inr ⟨_, fault?_of_nodes hNodes hFaultless hFault, rfl⟩
  | declined before heard =>
      have hDeclined := hAnswered none (by simp)
      cases hDeclined

/-! ## Agreement -/

/-- **Differentiation and evaluation end alike**, with respect to whatever
variable and in whatever session that supplies the expression: both come
through, or both meet a call of the same unknown function, or both meet the
same mismatch, which is to say a call of the same function with the same number
of arguments. -/
theorem derivative_iff_eval {s : Session σ} {e : Expr} (hSupplies : s.Supplies e) (wrt : String) :
    ((∃ d, e.derivative wrt = .ok d) ↔ ∃ value, (s.eval e).1 = .ok value) ∧
    (∀ name, e.derivative wrt = .error (.unsupportedFunction name) ↔
      (s.eval e).1 = .error (.undefinedFunction name)) ∧
    (∀ mismatch, e.derivative wrt = .error (.argumentMismatch mismatch) ↔
      (s.eval e).1 = .error (.argumentMismatch mismatch)) := by
  obtain ⟨d, hDerivative⟩ := exists_derivative_eq_verdict wrt e
  rcases eval_of_supplies hSupplies with ⟨hNone, value, hValue⟩ | ⟨fault, hFault, hError⟩
  · -- no fault: a derivative and a value
    rw [hNone] at hDerivative
    rw [hDerivative, hValue]
    simp [verdict]
  · rw [hFault] at hDerivative
    rw [hDerivative, hError]
    cases fault with
    | unknownFunction name => simp [verdict, CallFault.derivativeError, CallFault.evalError]
    | argumentMismatch mismatch => simp [verdict, CallFault.derivativeError, CallFault.evalError]

/-- Of three faulty calls the one that is first from left to right is
reported, though it stands below an argument of another call. Whoever is asked
gives a different answer every time. -/
theorem derivative_iff_eval_nested :
    let e := call "log" [var "x", call "tan" []] / (call "sine" [var "y"] + call "exp" [])
    let s : Session Float := ⟨∅, some fun _ memory => (some memory, memory + 1), 0, [], ""⟩
    s.Supplies e ∧ e.derivative "x" = .error (.argumentMismatch ⟨.tan, 0⟩) ∧
      (s.eval e).1 = .error (.argumentMismatch ⟨.tan, 0⟩) := by
  intro e s
  have hSupplies : s.Supplies e :=
    supplies_of_vars fun _ _ _ => ⟨_, rfl, fun _ => rfl⟩
  have hDerivative : e.derivative "x" = .error (.argumentMismatch ⟨.tan, 0⟩) := rfl
  exact ⟨hSupplies, hDerivative, ((derivative_iff_eval hSupplies "x").2.2 _).1 hDerivative⟩

end Fluxion.Session
