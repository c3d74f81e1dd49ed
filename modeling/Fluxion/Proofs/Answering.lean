import Fluxion.Console
import Fluxion.Proofs.Endings

/-!
# Answers from the lines of a console

A console answers a question with the next line that stands for a number, and
every line before it costs a complaint and one more prompt. Seen from the
calculation it is somebody with a queue of numbers, who answers with the first
and has nothing to say once it is empty. Whatever is asked, and however the
questions depend on the answers, the two answer alike; and as a question takes
its lines off the front of the input, no line is lost or goes to two of them.

What is said in between stays in its place: a dialogue may say something before,
between and after its questions. A calculation says everything before them but
the result.

## Main results

* `Exchange.Settled.queue` — the lines that settle a question take one number
  off the queue.
* `Console.alike_hold` — a dialogue at a console goes as it goes with a queue.
* `Console.run_as_with_queue` — a whole run.
* `Console.run_as_with_queue_rejected` — two runs with all that they write.
-/

namespace Fluxion

/-! ## Exchanges -/

/-- The numbers that lines stand for, in order. -/
def Prompt.values (lines : List (List Char)) : List Float :=
  lines.filterMap Prompt.value?

/-- A question with the lines it was settled with. -/
structure Exchange where
  name : String
  /-- The lines that stand for no number. -/
  rejected : List (List Char)
  /-- The line behind them with the number it stands for; there is none if the
  input ended. -/
  accepted : Option (List Char × Float)

namespace Exchange

/-- The lines that were read. -/
def lines (x : Exchange) : List (List Char) :=
  x.rejected ++ (x.accepted.map Prod.fst).toList

/-- What the question was answered with. -/
def answer (x : Exchange) : Option Float :=
  x.accepted.map Prod.snd

/-- The prompts: one, and one more for each line that was rejected. -/
def prompts (x : Exchange) : String :=
  String.join (List.replicate (x.rejected.length + 1) ("Who is " ++ x.name ++ ": "))

/-- The complaints, one for each line that was rejected. -/
def complaints (x : Exchange) : List String :=
  x.rejected.map fun line =>
    "`" ++ String.ofList (Text.trim line) ++ "` is not a number, try again"

/-- Without rejected lines there is one prompt. -/
theorem prompts_of_rejected_nil (name : String) (accepted : Option (List Char × Float)) :
    prompts ⟨name, [], accepted⟩ = Prompt.question name := by
  rw [prompts, List.length_nil, List.replicate_one, String.join_cons, String.join_nil,
    String.append_empty]
  rfl

/-- A rejected line costs one more prompt. -/
theorem prompts_reject (x : Exchange) (line : List Char) :
    prompts { x with rejected := line :: x.rejected } = Prompt.question x.name ++ x.prompts := by
  rw [prompts, List.length_cons, List.replicate_succ, String.join_cons]
  rfl

/-- The exchange takes its lines off the front of the input, and stops at the
first that stands for a number or where the input ends. -/
inductive Settled : Exchange → List (List Char) → List (List Char) → Prop
  | answered {name : String} {rejected left : List (List Char)} {line : List Char}
      {value : Float} (hRejected : ∀ other ∈ rejected, Prompt.value? other = none)
      (hValue : Prompt.value? line = some value) :
      Settled ⟨name, rejected, some (line, value)⟩ (rejected ++ line :: left) left
  | declined {name : String} {rejected : List (List Char)}
      (hRejected : ∀ other ∈ rejected, Prompt.value? other = none) :
      Settled ⟨name, rejected, none⟩ rejected []

/-- The exchanges are settled one after the other. -/
inductive Settles : List Exchange → List (List Char) → List (List Char) → Prop
  | nil {input : List (List Char)} : Settles [] input input
  | cons {x : Exchange} {xs : List Exchange} {input rest left : List (List Char)}
      (hFirst : x.Settled input rest) (hMore : Settles xs rest left) :
      Settles (x :: xs) input left

section

variable {x : Exchange} {xs : List Exchange} {input left : List (List Char)}

theorem Settled.input_eq (hSettled : x.Settled input left) : input = x.lines ++ left := by
  cases hSettled with
  | answered => simp [lines]
  | declined => simp [lines]

theorem Settles.input_eq (hSettles : Settles xs input left) :
    input = xs.flatMap lines ++ left := by
  induction hSettles with
  | nil => rfl
  | cons hFirst _ ih => rw [List.flatMap_cons, List.append_assoc, ← ih, hFirst.input_eq]

private theorem values_append_of_rejected {rejected : List (List Char)}
    (hRejected : ∀ other ∈ rejected, Prompt.value? other = none) (lines : List (List Char)) :
    Prompt.values (rejected ++ lines) = Prompt.values lines := by
  rw [Prompt.values, List.filterMap_append, List.filterMap_eq_nil_iff.2 hRejected]
  rfl

/-- **An exchange takes one number off the queue.** -/
theorem Settled.queue (hSettled : x.Settled input left) :
    (Prompt.values input).head? = x.answer ∧ (Prompt.values input).tail = Prompt.values left := by
  cases hSettled with
  | @answered name rejected _ line value hRejected hValue =>
      rw [values_append_of_rejected hRejected, Prompt.values, List.filterMap_cons, hValue]
      exact ⟨rfl, rfl⟩
  | declined hRejected =>
      have hNone : Prompt.values _ = [] := List.filterMap_eq_nil_iff.2 hRejected
      rw [hNone]
      exact ⟨rfl, rfl⟩

/-- So the answers are the numbers of the lines read, in order. -/
theorem Settles.values_eq (hSettles : Settles xs input left) :
    Prompt.values input = xs.filterMap answer ++ Prompt.values left := by
  induction hSettles with
  | nil => rfl
  | @cons x xs input rest left hFirst _ ih =>
      obtain ⟨hHead, hTail⟩ := hFirst.queue
      have hQueue : Prompt.values input = x.answer.toList ++ Prompt.values rest := by
        rw [← hHead, ← hTail]
        cases Prompt.values input <;> rfl
      rw [hQueue, ih, ← List.append_assoc]
      cases hAnswer : x.answer <;> simp [hAnswer]

/-- A line that stands for no number may come first. -/
theorem Settled.reject {line : List Char} (hNone : Prompt.value? line = none)
    (hSettled : x.Settled input left) :
    Settled { x with rejected := line :: x.rejected } (line :: input) left := by
  cases hSettled with
  | answered hRejected hValue => exact .answered (List.forall_mem_cons.2 ⟨hNone, hRejected⟩) hValue
  | declined hRejected => exact .declined (List.forall_mem_cons.2 ⟨hNone, hRejected⟩)

end

/-- What has been said, the prompts of the exchanges, and both in the order in
which they were written. -/
inductive Interleaves : String → List Exchange → String → Prop
  | nil : Interleaves "" [] ""
  | say (text : String) {said written : String} {xs : List Exchange}
      (hMore : Interleaves said xs written) : Interleaves (text ++ said) xs (text ++ written)
  | ask (x : Exchange) {said written : String} {xs : List Exchange}
      (hMore : Interleaves said xs written) : Interleaves said (x :: xs) (x.prompts ++ written)

/-- If nothing has been said, only the prompts have been written. -/
theorem Interleaves.of_silent {xs : List Exchange} {said written : String}
    (hWritten : Interleaves said xs written) (hSilent : said = "") :
    written = String.join (xs.map prompts) := by
  induction hWritten with
  | nil => rfl
  | say text _ ih =>
      obtain ⟨rfl, hSilent⟩ := String.append_eq_empty_iff.1 hSilent
      rw [← ih hSilent, String.empty_append]
  | ask x _ ih => rw [List.map_cons, String.join_cons, ← ih hSilent]

end Exchange

open Exchange

/-! ## Questions at a console -/

/-- Answers any name with the first of the numbers left. -/
def Session.first (_ : String) (left : List Float) : Option Float × List Float :=
  (left.head?, left.tail)

/-- A session with nothing but a queue of numbers. -/
def Session.queue (values : List Float) : Session (List Float) :=
  ⟨∅, some first, values, [], ""⟩

namespace Console

private theorem askReading_settled (name : String) (console : Console) (lines : List (List Char)) :
    ∃ x : Exchange, x.name = name ∧ x.Settled lines (askReading name console lines).2.input ∧
      (askReading name console lines).1 = x.answer ∧
      (askReading name console lines).2.output = console.output ++ x.prompts ∧
      (askReading name console lines).2.complaints = console.complaints ++ x.complaints := by
  induction lines generalizing console with
  | nil =>
      refine ⟨⟨name, [], none⟩, rfl, .declined (by simp), rfl, ?_, (List.append_nil _).symm⟩
      rw [prompts_of_rejected_nil]
      rfl
  | cons line rest ih =>
      rw [askReading]
      cases hValue : Prompt.value? line with
      | some value =>
          refine ⟨⟨name, [], some (line, value)⟩, rfl, .answered (by simp) hValue, rfl, ?_,
            (List.append_nil _).symm⟩
          rw [prompts_of_rejected_nil]
          rfl
      | none =>
          -- the complaint and one more prompt come before what the others cost
          obtain ⟨x, rfl, hSettled, hAnswer, hOutput, hComplaints⟩ :=
            ih { console.write (Prompt.question name) with
              complaints := console.complaints ++ [Prompt.complaint line] }
          refine ⟨{ x with rejected := line :: x.rejected }, rfl, hSettled.reject hValue, hAnswer,
            hOutput.trans ?_, hComplaints.trans (List.append_assoc _ _ _)⟩
          rw [prompts_reject, ← String.append_assoc]
          rfl

/-! ## Dialogues at a console -/

/-- A console and a session with a queue have gone on alike: these are the
exchanges at the console, this is what the session heard, and this is what was
written. -/
structure Alike (xs : List Exchange) (heard written : String) (console console' : Console)
    (s s' : Session (List Float)) : Prop where
  settles : Settles xs console.input console'.input
  memory : s'.memory = Prompt.values console'.input
  asked : s'.asked = s.asked ++ xs.map Exchange.name
  said : s'.said = s.said ++ heard
  output : console'.output = console.output ++ written
  complaints : console'.complaints = console.complaints ++ xs.flatMap Exchange.complaints

section

variable {xs : List Exchange} {heard written : String} {console console' : Console}
  {s s' : Session (List Float)}

theorem Alike.refl (hMemory : s.memory = Prompt.values console.input) :
    Alike [] "" "" console console s s :=
  ⟨.nil, hMemory, (List.append_nil _).symm, String.append_empty.symm, String.append_empty.symm,
    (List.append_nil _).symm⟩

theorem Alike.before (text : String)
    (hAlike : Alike xs heard written (console.write text) console' (s.listen text) s') :
    Alike xs (text ++ heard) (text ++ written) console console' s s' :=
  { hAlike with
    said := hAlike.said.trans String.append_assoc
    output := hAlike.output.trans String.append_assoc }

theorem Alike.behind (text : String) (hAlike : Alike xs heard written console console' s s') :
    Alike xs (heard ++ text) (written ++ text) console (console'.write text) s (s'.listen text) :=
  { hAlike with
    said := by rw [← String.append_assoc, ← hAlike.said]; rfl
    output := by rw [← String.append_assoc, ← hAlike.output]; rfl }

end

/-- **A dialogue at a console goes as it goes with a queue** of the numbers that
the lines stand for: it has the same result, and they have gone on alike. -/
theorem alike_hold {α : Type} (d : Dialogue α) (console : Console) (s : Session (List Float))
    (hResolver : s.resolver = some Session.first)
    (hMemory : s.memory = Prompt.values console.input) :
    ((hold d).run console).1 = (s.hold d).1 ∧
      ∃ xs heard written, Interleaves heard xs written ∧
        Alike xs heard written console ((hold d).run console).2 s (s.hold d).2 := by
  induction d generalizing console s with
  | done a => exact ⟨rfl, [], "", "", .nil, .refl hMemory⟩
  | say text d ih =>
      obtain ⟨hResult, xs, heard, written, hWritten, hAlike⟩ :=
        ih (console.write text) (s.listen text) hResolver hMemory
      exact ⟨hResult, xs, _, _, hWritten.say text, hAlike.before text⟩
  | ask name next ih =>
      obtain ⟨x, rfl, hSettled, hAnswer, hOutput, hComplaints⟩ :=
        askReading_settled name console console.input
      have hAsk : s.ask x.name = (x.answer, { s with
          memory := Prompt.values (askReading x.name console console.input).2.input
          asked := s.asked ++ [x.name] }) := by
        rw [Session.ask, hResolver, hMemory, ← hSettled.queue.1, ← hSettled.queue.2]
        rfl
      have hHold : (hold (.ask x.name next)).run console =
          (hold (next x.answer)).run (askReading x.name console console.input).2 := by
        rw [← hAnswer]
        rfl
      obtain ⟨hResult, xs, heard, written, hWritten, hAlike⟩ := ih x.answer
        (askReading x.name console console.input).2 (s.ask x.name).2
        ((s.resolver_ask x.name).trans hResolver) (by rw [hAsk])
      rw [hHold, Session.hold_ask, show (s.ask x.name).1 = x.answer by rw [hAsk]]
      refine ⟨hResult, x :: xs, heard, x.prompts ++ written, hWritten.ask x,
        .cons hSettled hAlike.settles, hAlike.memory, hAlike.asked.trans ?_,
        hAlike.said.trans ?_, hAlike.output.trans ?_, hAlike.complaints.trans ?_⟩
      · rw [hAsk, List.append_assoc]
        rfl
      · rw [hAsk]
      · rw [hOutput, String.append_assoc]
      · rw [hComplaints, List.flatMap_cons, List.append_assoc]

end Console

/-! ## Calculations at a console -/

namespace Calculation

/-- What a calculation says before its first question. -/
def reports (source : List Char) : String :=
  match Expr.parse source with
  | .error _ => ""
  | .ok e =>
    match e.derivative "x" with
    | .error _ => "TREE:\n" ++ e.outlineText ++ "\n"
    | .ok d =>
      ("TREE:\n" ++ e.outlineText ++ "\n") ++ ("DERIVATIVE:\n" ++ d.outlineText ++ "\n")

/-- What a calculation says behind its last question: the result, with five
places, if there is one. -/
inductive Concludes : Except Failure Unit → String → Prop
  | failed (failure : Failure) : Concludes (.error failure) ""
  | finished (value : Float) :
      Concludes (.ok ()) ("result = " ++ String.ofList (Number.fixed 5 value) ++ "\n")

variable {source : List Char} {e d : Expr}

theorem reports_of_unreadable {error : ParseError} (hRead : Expr.parse source = .error error) :
    reports source = "" := by
  rw [reports, hRead]

theorem reports_of_underivable {error : DerivativeError} (hRead : Expr.parse source = .ok e)
    (hDerivative : e.derivative mainVariable = .error error) :
    reports source = expressionReport e := by
  rw [mainVariable] at hDerivative
  simp only [reports, hRead, hDerivative]
  rfl

theorem reports_of_derivable (hRead : Expr.parse source = .ok e)
    (hDerivative : e.derivative mainVariable = .ok d) :
    reports source = expressionReport e ++ derivativeReport d := by
  rw [mainVariable] at hDerivative
  simp only [reports, hRead, hDerivative]
  rfl

theorem run_of_underivable {error : DerivativeError} (hRead : Expr.parse source = .ok e)
    (hDerivative : e.derivative mainVariable = .error error) (b : Bindings) :
    run b source = .say (expressionReport e) (.done (.error (.underivable error))) := by
  rw [run, hRead]
  dsimp only
  rw [hDerivative]

/-- What follows the evaluation: the result is shown if there is one. -/
def conclude : Except EvalError Float → Dialogue (Except Failure Unit)
  | .error error => .done (.error (.valueless error))
  | .ok value => .say (resultReport value) (.done (.ok ()))

theorem run_of_derivable (hRead : Expr.parse source = .ok e)
    (hDerivative : e.derivative mainVariable = .ok d) (b : Bindings) :
    run b source =
      .say (expressionReport e) (.say (derivativeReport d) ((d.eval b).run >>= conclude)) := by
  have hConclude : conclude = fun outcome => match outcome with
      | .error error => pure (.error (.valueless error))
      | .ok value => .say (resultReport value) (.done (.ok ())) := by
    funext outcome
    cases outcome <;> rfl
  rw [run, hRead]
  dsimp only
  rw [hDerivative]
  exact congrArg (fun next => Dialogue.say (expressionReport e)
    (.say (derivativeReport d) ((d.eval b).run >>= next))) hConclude.symm

end Calculation

namespace Console

open Calculation

@[simp] theorem hold_done {α : Type} (a : α) (console : Console) :
    (hold (.done a)).run console = (a, console) := rfl

@[simp] theorem hold_say {α : Type} (text : String) (d : Dialogue α) (console : Console) :
    (hold (.say text d)).run console = (hold d).run (console.write text) := rfl

theorem hold_bind {α β : Type} (d : Dialogue α) (f : α → Dialogue β) (console : Console) :
    (hold (d >>= f)).run console =
      (hold (f ((hold d).run console).1)).run ((hold d).run console).2 := by
  rw [hold, Dialogue.play_bind]
  rfl

/-- Evaluating goes as it goes with a queue, and says nothing. -/
private theorem alike_eval (e : Expr) (console : Console) (s : Session (List Float))
    (hResolver : s.resolver = some Session.first)
    (hMemory : s.memory = Prompt.values console.input) :
    ((hold (e.eval s.bindings).run).run console).1 = (s.hold (e.eval s.bindings).run).1 ∧
      ∃ xs, Alike xs "" (String.join (xs.map prompts)) console
        ((hold (e.eval s.bindings).run).run console).2 s (s.hold (e.eval s.bindings).run).2 := by
  obtain ⟨hResult, xs, heard, written, hWritten, hAlike⟩ :=
    alike_hold (e.eval s.bindings).run console s hResolver hMemory
  have hSilent : heard = "" :=
    String.append_eq_left_iff.1 (hAlike.said.symm.trans (s.frame_eval e).1)
  rw [hWritten.of_silent hSilent, hSilent] at hAlike
  exact ⟨hResult, xs, hAlike⟩

private theorem alike_conclude {xs : List Exchange} {heard written : String}
    {console console' : Console} {s s' : Session (List Float)}
    (hAlike : Alike xs heard written console console' s s') (outcome : Except EvalError Float) :
    ((hold (conclude outcome)).run console').1 = (s'.hold (conclude outcome)).1 ∧
      ∃ result, Concludes (s'.hold (conclude outcome)).1 result ∧
        Alike xs (heard ++ result) (written ++ result) console
          ((hold (conclude outcome)).run console').2 s (s'.hold (conclude outcome)).2 := by
  cases outcome with
  | error error =>
      refine ⟨rfl, "", .failed _, ?_⟩
      rw [String.append_empty, String.append_empty]
      exact hAlike
  | ok value =>
      exact ⟨rfl, resultReport value, .finished value, hAlike.behind (resultReport value)⟩

/-- A calculation at a console goes as it goes with a queue. Both reports come
before the first prompt, and the result comes behind the last. -/
private theorem alike_run (source : List Char) (console : Console) {s : Session (List Float)}
    (hResolver : s.resolver = some Session.first)
    (hMemory : s.memory = Prompt.values console.input) :
    ((hold (Calculation.run s.bindings source)).run console).1 =
        (s.hold (Calculation.run s.bindings source)).1 ∧
      ∃ xs result, Concludes (s.hold (Calculation.run s.bindings source)).1 result ∧
        Alike xs (reports source ++ result)
          (reports source ++ String.join (xs.map prompts) ++ result) console
          ((hold (Calculation.run s.bindings source)).run console).2 s
          (s.hold (Calculation.run s.bindings source)).2 := by
  cases hRead : Expr.parse source with
  | error error =>
      rw [Calculation.run, hRead, reports_of_unreadable hRead]
      exact ⟨rfl, [], "", .failed _, .refl hMemory⟩
  | ok e =>
      have hShown : Alike [] "" "" (console.write (expressionReport e)) _
          (s.listen (expressionReport e)) _ := .refl hMemory
      cases hDerivative : e.derivative Calculation.mainVariable with
      | error error =>
          rw [Calculation.run_of_underivable hRead hDerivative,
            reports_of_underivable hRead hDerivative]
          exact ⟨rfl, [], "", .failed _, by simpa using hShown.before (expressionReport e)⟩
      | ok d =>
          have hReports := reports_of_derivable hRead hDerivative
          -- showing the expressions leaves the bindings as they are
          obtain ⟨hEval, xs, hAlike⟩ : ((hold (d.eval s.bindings).run).run _).1 = _ ∧ _ :=
            alike_eval d ((console.write (expressionReport e)).write (derivativeReport d))
              ((s.listen (expressionReport e)).listen (derivativeReport d)) hResolver hMemory
          have hBefore := (hAlike.before (derivativeReport d)).before (expressionReport e)
          rw [String.append_empty, ← String.append_assoc, ← hReports] at hBefore
          rw [Calculation.run_of_derivable hRead hDerivative, hold_say, hold_say, hold_bind,
            Session.hold_say, Session.hold_say, Session.hold_bind, hEval]
          obtain ⟨hResult, result, hConcludes, hConcluded⟩ := alike_conclude hBefore _
          exact ⟨hResult, xs, result, hConcludes, hConcluded⟩

/-- The calculation for a source at a console with this input. -/
def calculate (source input : List Char) : Except Failure Unit × Console :=
  (hold (Calculation.run ∅ source)).run ⟨linesOf input, "", []⟩

/-- The calculation for a source with a queue of the numbers that the lines of
this input stand for. -/
def calculateQueued (source input : List Char) : Except Failure Unit × Session (List Float) :=
  (Session.queue (Prompt.values (linesOf input))).hold (Calculation.run ∅ source)

/-- **A whole run at a console goes as it goes with a queue** of the numbers that
the lines of the input stand for. The questions are those asked of the queue,
each settled with lines taken off the front of the input, and both succeed or
both fail alike. -/
theorem run_as_with_queue (source input : List Char) :
    ∃ exchanges result,
      (calculate source input).1 = (calculateQueued source input).1 ∧
        Settles exchanges (linesOf input) (calculate source input).2.input ∧
        linesOf input =
          exchanges.flatMap Exchange.lines ++ (calculate source input).2.input ∧
        Prompt.values (linesOf input) = exchanges.filterMap Exchange.answer ++
          Prompt.values (calculate source input).2.input ∧
        (calculateQueued source input).2.asked = exchanges.map Exchange.name ∧
        (calculateQueued source input).2.memory =
          Prompt.values (calculate source input).2.input ∧
        Concludes (calculateQueued source input).1 result ∧
        (calculateQueued source input).2.said = reports source ++ result ∧
        (run source input).output =
          reports source ++ String.join (exchanges.map Exchange.prompts) ++ result ∧
        (run source input).complaints = exchanges.flatMap Exchange.complaints ++
          (match (calculateQueued source input).1 with
            | .ok () => []
            | .error failure => ["Error: " ++ failure.explanation.message]) ∧
        ((run source input).exitCode = 0 ↔ (calculateQueued source input).1 = .ok ()) := by
  obtain ⟨hResult, exchanges, result, hConcludes, hAlike⟩ :=
    alike_run source ⟨linesOf input, "", []⟩
      (s := Session.queue (Prompt.values (linesOf input))) rfl rfl
  have hOutput := hAlike.output.trans String.empty_append
  have hSaid := hAlike.said.trans String.empty_append
  refine ⟨exchanges, result, hResult, hAlike.settles, hAlike.settles.input_eq,
    hAlike.settles.values_eq, hAlike.asked, hAlike.memory, hConcludes, hSaid, ?_⟩
  have hRun : run source input = match (calculate source input).1 with
      | .ok () => ⟨(calculate source input).2.output, (calculate source input).2.complaints, 0⟩
      | .error failure => ⟨(calculate source input).2.output,
          (calculate source input).2.complaints ++ [failureLine failure], 1⟩ :=
    rfl
  rw [hRun, show (calculate source input).1 = (calculateQueued source input).1 from hResult]
  cases (calculateQueued source input).1 with
  | ok => exact ⟨hOutput, hAlike.complaints.trans (List.append_nil _).symm, by simp⟩
  | error failure => exact ⟨hOutput, congrArg (· ++ _) hAlike.complaints, by simp⟩

/-- The first line is no number and costs another prompt for `y`; the last one
is not read. Without the last two lines nobody knows `x`. -/
theorem run_as_with_queue_rejected :
    let source := "x*y".toList
    let shown := "TREE:\n*\n  x\n  y\n" ++
      "DERIVATIVE:\n+\n  *\n    1\n    y\n  *\n    x\n    0\n"
    let input := "a b\n 5 \n2\n7\n".toList
    let short := "a b\n 5 \n".toList
    ((run source input).output =
        shown ++ "Who is y: Who is y: Who is x: " ++ "result = 5.00000\n" ∧
      (run source input).complaints = ["`a b` is not a number, try again"] ∧
      (run source input).exitCode = 0 ∧
      (calculateQueued source input).1 = .ok () ∧
      ∃ exchanges, Settles exchanges (linesOf input) ["7".toList] ∧
        exchanges.map Exchange.name = ["y", "x"]) ∧
    ((run source short).output = shown ++ "Who is y: Who is y: Who is x: " ∧
      (run source short).complaints =
        ["`a b` is not a number, try again", "Error: `x` is not defined"] ∧
      (run source short).exitCode = 1 ∧ (calculateQueued source short).1 ≠ .ok ()) := by
  intro source shown input short
  have hExit : (run source input).exitCode = 0 := by decide +kernel
  have hExitShort : (run source short).exitCode = 1 := by decide +kernel
  have hLeft : (calculate source input).2.input = ["7".toList] := by decide +kernel
  have hAsked : (calculateQueued source input).2.asked = ["y", "x"] := by decide +kernel
  obtain ⟨exchanges, result, -, hSettles, -, -, hNames, -, -, -, -, -, hCode⟩ :=
    run_as_with_queue source input
  obtain ⟨_, _, -, -, -, -, -, -, -, -, -, -, hCodeShort⟩ := run_as_with_queue source short
  rw [hLeft] at hSettles
  refine ⟨⟨by decide +kernel, by decide +kernel, hExit, hCode.1 hExit, exchanges, hSettles,
    hNames.symm.trans hAsked⟩, by decide +kernel, by decide +kernel, hExitShort, ?_⟩
  intro hOk
  rw [hCodeShort.2 hOk] at hExitShort
  cases hExitShort

end Console

end Fluxion
