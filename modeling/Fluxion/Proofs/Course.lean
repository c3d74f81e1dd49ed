import Fluxion.Proofs.Scan

/-!
# The course of an evaluation

A scan of the nodes goes wrong in two ways: a call has a fault, or a question
is declined. Either way it ends there, at a node with nothing wrong before it,
and the questions asked by then are those of the nodes seen, that node
included. A scan that gets through has asked for every unbound occurrence of a
name, and the answers take their places among the values in the order in which
they were given.

## Main results

* `Session.course_scan` — a scan takes one of the three courses, and leaves
  the session as asking its questions does.
* `Session.eval_of_faultless` — without faults, evaluation fails only for want
  of a value.
* `Session.eval_runs_along_nodes` — what evaluation comes to and what it asks,
  told along the nodes.
-/

namespace Fluxion

/-! ## Questions -/

/-- The value that a name has without asking. -/
def Bindings.known? (b : Bindings) (name : String) : Option Float :=
  (constant? name).or (b.get? name)

theorem Bindings.known?_eq_none {b : Bindings} {name : String} :
    b.known? name = none ↔ constant? name = none ∧ b.get? name = none :=
  Option.or_eq_none_iff

/-- The name a node asks for: that of a variable whose value is not known. -/
def Node.question? (b : Bindings) : Node → Option String
  | var name => if (b.known? name).isNone then some name else none
  | const _ | operation _ | call _ _ => none

theorem Node.question?_eq_some {b : Bindings} {node : Node} {name : String} :
    node.question? b = some name ↔ node = .var name ∧ b.known? name = none := by
  cases node with
  | var other =>
      simp only [question?, Option.isNone_iff_eq_none, Option.ite_none_right_eq_some,
        Option.some_inj, var.injEq]
      constructor
      · rintro ⟨hNone, rfl⟩
        exact ⟨rfl, hNone⟩
      · rintro ⟨rfl, hNone⟩
        exact ⟨hNone, rfl⟩
  | const | operation | call => simp [question?]

/-- The names that nodes ask for, in order and as often as they occur. -/
def questions (b : Bindings) (nodes : List Node) : List String :=
  nodes.filterMap (Node.question? b)

theorem mem_questions {b : Bindings} {nodes : List Node} {name : String} :
    name ∈ questions b nodes ↔ .var name ∈ nodes ∧ b.known? name = none := by
  simp only [questions, List.mem_filterMap, Node.question?_eq_some]
  constructor
  · rintro ⟨_, hMem, rfl, hNone⟩
    exact ⟨hMem, hNone⟩
  · rintro ⟨hMem, hNone⟩
    exact ⟨_, hMem, rfl, hNone⟩

/-- The values of the variables among nodes, when the questions have the given
answers. -/
def filled (b : Bindings) : List Node → List Float → List Float
  | [], _ => []
  | .const _ :: rest, answers | .operation _ :: rest, answers | .call _ _ :: rest, answers =>
    filled b rest answers
  | .var name :: rest, answers =>
    match b.known? name with
    | some value => value :: filled b rest answers
    | none => answers.headD 0 :: filled b rest answers.tail

namespace Session

variable {σ : Type}

theorem lookUp_of_known {s : Session σ} {name : String} {value : Float}
    (hKnown : s.bindings.known? name = some value) : s.lookUp name = (some value, s) := by
  rw [Bindings.known?, Option.or_eq_some_iff] at hKnown
  rcases hKnown with hConstant | ⟨hConstant, hBound⟩
  · simp only [lookUp, hConstant]
  · simp only [lookUp, hConstant, hBound]

theorem lookUp_of_unknown {s : Session σ} {name : String}
    (hNone : s.bindings.known? name = none) : s.lookUp name = s.ask name := by
  obtain ⟨hConstant, hBound⟩ := Bindings.known?_eq_none.1 hNone
  simp only [lookUp, hConstant, hBound]

/-- Asks for several names, one after the other, whatever the answers are. -/
def askAll (s : Session σ) : List String → List (Option Float) × Session σ
  | [] => ([], s)
  | name :: rest =>
    let (answer, s) := s.ask name
    let (answers, s) := s.askAll rest
    (answer :: answers, s)

/-- Questions change nothing but the memory of who is asked and the record of
what was asked. With nobody to ask there is nothing to record. -/
theorem frame_askAll (s : Session σ) (names : List String) :
    (s.askAll names).2.bindings = s.bindings ∧ (s.askAll names).2.resolver = s.resolver ∧
      (s.askAll names).2.said = s.said ∧
      (s.askAll names).2.asked = s.asked ++ if s.resolver.isSome then names else [] := by
  induction names generalizing s with
  | nil => simp [askAll]
  | cons name rest ih =>
      obtain ⟨hBindings, hResolver, hSaid, hAsked⟩ := ih (s.ask name).2
      refine ⟨hBindings.trans (s.bindings_ask name), hResolver.trans (s.resolver_ask name), ?_, ?_⟩
      · refine hSaid.trans ?_
        unfold ask
        split <;> rfl
      · refine hAsked.trans ?_
        rw [resolver_ask]
        unfold ask
        cases s.resolver <;> simp

end Session

/-! ## Courses -/

/-- The ways a scan may go: how far it sees, the answers it is given, and what
comes of it. -/
inductive Course (b : Bindings) (nodes : List Node) :
    List Node → List (Option Float) → Except EvalError (List Float) → Prop where
  /-- No call has a fault and no question is declined. -/
  | through (answers : List Float) (hFaultless : ∀ node ∈ nodes, node.fault? = none) :
      Course b nodes nodes (answers.map some) (.ok (filled b nodes answers))
  /-- A call has a fault, and nothing went wrong before. -/
  | fault (before : List Node) (answers : List Float) {after : List Node} {node : Node}
      {fault : CallFault} (hNodes : nodes = before ++ node :: after)
      (hFaultless : ∀ node ∈ before, node.fault? = none) (hFault : node.fault? = some fault) :
      Course b nodes (before ++ [node]) (answers.map some) (.error fault.evalError)
  /-- A question is declined, and nothing went wrong before. -/
  | declined (before : List Node) (answers : List Float) {after : List Node} {name : String}
      (hNodes : nodes = before ++ .var name :: after)
      (hFaultless : ∀ node ∈ before, node.fault? = none) (hNone : b.known? name = none) :
      Course b nodes (before ++ [.var name]) (answers.map some ++ [none])
        (.error (.undefinedVariable name))

namespace Course

variable {b : Bindings} {rest seen : List Node} {answers : List (Option Float)}
  {outcome : Except EvalError (List Float)}

/-- One more node in front, if it has no fault: the answers to its question
come first, and it contributes to the values what it does whatever else is
answered. -/
theorem cons {node : Node} (first : List Float) (contribute : List Float → List Float)
    (hFault : node.fault? = none)
    (hFilled : ∀ heard, filled b (node :: rest) (first ++ heard) = contribute (filled b rest heard))
    (hCourse : Course b rest seen answers outcome) :
    Course b (node :: rest) (node :: seen) (first.map some ++ answers)
      (outcome.map contribute) := by
  cases hCourse with
  | through heard hFaultless =>
      rw [← List.map_append, Except.map, ← hFilled]
      exact .through (first ++ heard) (List.forall_mem_cons.2 ⟨hFault, hFaultless⟩)
  | fault before heard hNodes hFaultless hFault' =>
      rw [← List.map_append]
      exact .fault (node :: before) (first ++ heard) (congrArg (node :: ·) hNodes)
        (List.forall_mem_cons.2 ⟨hFault, hFaultless⟩) hFault'
  | declined before heard hNodes hFaultless hNone =>
      rw [← List.append_assoc, ← List.map_append]
      exact .declined (node :: before) (first ++ heard) (congrArg (node :: ·) hNodes)
        (List.forall_mem_cons.2 ⟨hFault, hFaultless⟩) hNone

/-- A node that is no variable is passed. -/
theorem pass {node : Node} (hVariable : node.variable? = none) (hFault : node.fault? = none)
    (hCourse : Course b rest seen answers outcome) :
    Course b (node :: rest) (node :: seen) answers outcome := by
  have hPassed := hCourse.cons [] id hFault fun heard => by
    cases node with
    | var name => cases hVariable
    | const | operation | call => rfl
  rwa [Except.map_id] at hPassed

/-- A variable with a known value contributes it. -/
theorem known {name : String} {value : Float} (hKnown : b.known? name = some value)
    (hCourse : Course b rest seen answers outcome) :
    Course b (.var name :: rest) (.var name :: seen) answers (outcome.map (value :: ·)) :=
  hCourse.cons [] (value :: ·) rfl fun heard => by
    rw [List.nil_append, filled, hKnown]

/-- Any other variable contributes the answer to its question. -/
theorem answered {name : String} {value : Float} (hNone : b.known? name = none)
    (hCourse : Course b rest seen answers outcome) :
    Course b (.var name :: rest) (.var name :: seen) (some value :: answers)
      (outcome.map (value :: ·)) :=
  hCourse.cons [value] (value :: ·) rfl fun heard => by
    rw [filled, hNone]
    rfl

/-- What is seen is a front part of the nodes. -/
theorem seen_prefix (hCourse : Course b rest seen answers outcome) : seen <+: rest := by
  cases hCourse with
  | through => exact List.prefix_refl rest
  | fault before _ hNodes =>
      rw [hNodes]
      exact ⟨_, List.append_assoc before _ _⟩
  | declined before _ hNodes =>
      rw [hNodes]
      exact ⟨_, List.append_assoc before _ _⟩

end Course

namespace Session

variable {σ : Type}

/-- **Every scan takes one of the courses**, and asks the questions of the
nodes that it sees. -/
theorem course_scan (s : Session σ) (nodes : List Node) :
    ∃ seen answers, Course s.bindings nodes seen answers (s.scan nodes).1 ∧
      s.askAll (questions s.bindings seen) = (answers, (s.scan nodes).2) := by
  induction nodes generalizing s with
  | nil => exact ⟨[], [], .through [] (by simp), rfl⟩
  | cons node rest ih =>
      cases node with
      | const value =>
          obtain ⟨seen, answers, hCourse, hAsk⟩ := ih s
          exact ⟨_, answers, hCourse.pass rfl rfl, hAsk⟩
      | operation op =>
          obtain ⟨seen, answers, hCourse, hAsk⟩ := ih s
          exact ⟨_, answers, hCourse.pass rfl rfl, hAsk⟩
      | call function given =>
          rw [scan]
          cases hFault : (Node.call function given).fault? with
          | some fault =>
              exact ⟨_, [], .fault [] [] rfl (by simp) hFault, rfl⟩
          | none =>
              obtain ⟨seen, answers, hCourse, hAsk⟩ := ih s
              exact ⟨_, answers, hCourse.pass rfl hFault, hAsk⟩
      | var name =>
          rw [scan]
          cases hKnown : s.bindings.known? name with
          | some value =>
              obtain ⟨seen, answers, hCourse, hAsk⟩ := ih s
              rw [lookUp_of_known hKnown]
              refine ⟨_, answers, hCourse.known hKnown, ?_⟩
              rw [questions, List.filterMap_cons, Node.question?, hKnown]
              exact hAsk
          | none =>
              have hQuestions (seen : List Node) : questions s.bindings (.var name :: seen) =
                  name :: questions s.bindings seen := by
                rw [questions, List.filterMap_cons, Node.question?, hKnown]
                rfl
              have hBindings := s.bindings_ask name
              rw [lookUp_of_unknown hKnown]
              generalize hAnswer : s.ask name = answer at hBindings
              obtain ⟨answer, s'⟩ := answer
              cases answer with
              | none =>
                  refine ⟨_, _, .declined [] [] rfl (by simp) hKnown, ?_⟩
                  rw [List.nil_append, hQuestions, askAll, hAnswer]
                  rfl
              | some value =>
                  -- the question has changed the session, but not what is known
                  obtain ⟨seen, answers, hCourse, hAsk⟩ := ih s'
                  simp only at hBindings
                  rw [hBindings] at hCourse hAsk
                  refine ⟨_, _, hCourse.answered hKnown, ?_⟩
                  rw [hQuestions, askAll, hAnswer]
                  simp only [hAsk]

/-- What changes in a session in which an expression is evaluated: nothing is
said, and the names asked are variables whose values are not known. -/
theorem frame_eval (s : Session σ) (e : Expr) :
    (s.eval e).2.said = s.said ∧ ∃ names, (s.eval e).2.asked = s.asked ++ names ∧
      ∀ name ∈ names, name ∈ e.vars ∧ s.bindings.known? name = none := by
  obtain ⟨seen, answers, hCourse, hAsk⟩ := s.course_scan e.nodes
  obtain ⟨-, -, hSaid, hAsked⟩ := s.frame_askAll (questions s.bindings seen)
  rw [hAsk] at hSaid hAsked
  rw [eval_eq_scan]
  refine ⟨hSaid, _, hAsked, ?_⟩
  intro name hName
  have hQuestion : name ∈ questions s.bindings seen := by
    split at hName
    · exact hName
    · cases hName
  obtain ⟨hSeen, hNone⟩ := mem_questions.1 hQuestion
  exact ⟨Expr.mem_vars.2 (hCourse.seen_prefix.subset hSeen), hNone⟩

/-- Without faults only an unknown value can be missing. -/
theorem eval_of_faultless (s : Session σ) {e : Expr} (hFaultless : e.Every (·.fault? = none)) :
    (∃ value, (s.eval e).1 = .ok value) ∨
      ∃ name ∈ e.vars, s.bindings.known? name = none ∧
        (s.eval e).1 = .error (.undefinedVariable name) := by
  obtain ⟨seen, answers, hCourse, -⟩ := s.course_scan e.nodes
  rw [eval_eq_scan]
  generalize (s.scan e.nodes).1 = outcome at hCourse
  cases hCourse with
  | through => exact .inl ⟨_, rfl⟩
  | @fault _ _ _ node _ hNodes _ hFault =>
      rw [hFaultless node (by simp [hNodes])] at hFault
      cases hFault
  | @declined _ _ _ name hNodes _ hNone =>
      exact .inr ⟨name, Expr.mem_vars.2 (by simp [hNodes]), hNone, rfl⟩

/-- Each of the two occurrences of `x` is asked for; the call behind them has no
argument, and `y` is not asked for any more. -/
example :
    let s : Session Unit := ⟨∅, some fun _ _ => (some 1, ()), (), [], ""⟩
    (s.eval (.var "x" + .var "x" + .call "sin" [] + .var "y")).2.asked = ["x", "x"] := by
  rfl

end Session

end Fluxion
