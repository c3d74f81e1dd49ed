import Fluxion.Proofs.Scan
import Fluxion.Proofs.Substitution

/-!
# Ways to provide values

A variable can get its value in three ways: it is bound beforehand, somebody
answers the question for it, or a constant is put in its place. Evaluation
finds out along three different paths, and the named constants are in front of
the first two of them and have no part in the third one. What evaluation makes
of an expression depends on what looking up a name comes to, and on nothing
else of a session; so a session that always finds the same and one in which
something is put in beforehand can be compared name by name.

## Main results

* `Session.Steady.eval` — what a session finds does not change under way.
* `Session.eval_eq_eval_substitute` — looking a value up is putting it in
  beforehand.
* `Provided.eq_of_agree` — every two ways to provide values lead to the same
  outcome.
-/

namespace Fluxion

/-! ## Steady sessions -/

namespace Session

variable {σ τ : Type}

/-- In the session, and as long as it has the same bindings and somebody of the
same mind to ask, looking up a name comes to the given value. -/
def Steady (found : String → Option Float) (s : Session σ) : Prop :=
  ∀ t : Session σ, t.bindings = s.bindings → t.resolver = s.resolver →
    ∀ name, (t.lookUp name).1 = found name

section

variable {found : String → Option Float} {s : Session σ}

theorem Steady.lookUp (hSteady : s.Steady found) (name : String) :
    (s.lookUp name).1 = found name :=
  hSteady s rfl rfl name

/-- **What a session finds does not change under way.** -/
theorem Steady.eval (hSteady : s.Steady found) (e : Expr) : (s.eval e).2.Steady found := by
  obtain ⟨hBindings, hResolver⟩ := s.frame_hold (e.eval s.bindings).run
  exact fun t ht ht' => hSteady t (ht.trans hBindings) (ht'.trans hResolver)

end

/-! ## Looking up and putting in -/

section

variable {found others values : String → Option Float}

private theorem eval_var_substitute (hFound : ∀ name, found name = (values name).or (others name))
    {s : Session σ} {t : Session τ} (hs : s.Steady found) (ht : t.Steady others) (name : String) :
    (s.eval (.var name)).1 = (t.eval ((Expr.var name).substitute values)).1 := by
  have hLeft := hs.lookUp name
  have hRight := ht.lookUp name
  rw [hFound] at hLeft
  rw [eval_var, Expr.substitute]
  generalize s.lookUp name = looked at hLeft
  obtain ⟨answer, s'⟩ := looked
  replace hLeft : answer = (values name).or (others name) := hLeft
  cases hValue : values name with
  | some value =>
      obtain rfl : answer = some value := by rw [hLeft, hValue, Option.some_or]
      rfl
  | none =>
      rw [eval_var]
      generalize t.lookUp name = looked at hRight
      obtain ⟨answer', t'⟩ := looked
      obtain rfl : answer = answer' := by
        rw [hLeft, hValue, Option.none_or]
        exact hRight.symm
      cases answer <;> rfl

mutual

/-- **Looking a value up is putting it in beforehand.** Where a session finds
one of the values, another one may find a constant in its place; where it finds
something else, so does the other one. -/
theorem eval_eq_eval_substitute (hFound : ∀ name, found name = (values name).or (others name))
    {s : Session σ} {t : Session τ} (hs : s.Steady found) (ht : t.Steady others) (e : Expr) :
    (s.eval e).1 = (t.eval (e.substitute values)).1 := by
  cases e with
  | const value => rfl
  | var name => exact eval_var_substitute hFound hs ht name
  | binary op left right =>
      have hLeft := eval_eq_eval_substitute hFound hs ht left
      have hs' := hs.eval left
      have ht' := ht.eval (left.substitute values)
      rw [Expr.substitute, eval_binary, eval_binary]
      generalize s.eval left = held at hLeft hs'
      generalize t.eval (left.substitute values) = held' at hLeft ht'
      obtain ⟨outcome, s'⟩ := held
      obtain ⟨outcome', t'⟩ := held'
      obtain rfl : outcome = outcome' := hLeft
      cases outcome with
      | error err => rfl
      | ok a => exact congrArg (Except.map _) (eval_eq_eval_substitute hFound hs' ht' right)
  | call function arguments =>
      rw [Expr.substitute, eval_call, eval_call, Expr.length_substituteAll]
      cases (Node.call function arguments.length).fault? with
      | some fault => rfl
      | none => exact congrArg (Except.map _) (evalAll_eq_evalAll_substitute hFound hs ht arguments)

theorem evalAll_eq_evalAll_substitute
    (hFound : ∀ name, found name = (values name).or (others name)) {s : Session σ}
    {t : Session τ} (hs : s.Steady found) (ht : t.Steady others) (es : List Expr) :
    (s.evalAll es).1 = (t.evalAll (Expr.substituteAll values es)).1 := by
  cases es with
  | nil => rw [Expr.substituteAll, evalAll_nil, evalAll_nil]
  | cons e rest =>
      have hFirst := eval_eq_eval_substitute hFound hs ht e
      have hs' := hs.eval e
      have ht' := ht.eval (e.substitute values)
      rw [Expr.substituteAll, evalAll_cons, evalAll_cons]
      generalize s.eval e = held at hFirst hs'
      generalize t.eval (e.substitute values) = held' at hFirst ht'
      obtain ⟨outcome, s'⟩ := held
      obtain ⟨outcome', t'⟩ := held'
      obtain rfl : outcome = outcome' := hFirst
      cases outcome with
      | error err => rfl
      | ok a => exact congrArg (Except.map _) (evalAll_eq_evalAll_substitute hFound hs' ht' rest)

end

end

/-- With nobody to ask a dialogue is held alone. -/
theorem hold_alone {α : Type} {s : Session σ} (hNobody : s.resolver = none) (d : Dialogue α) :
    (s.hold d).1 = d.alone := by
  induction d generalizing s with
  | done a => rfl
  | say text d ih => exact ih hNobody
  | ask name next ih =>
      have hAsk : s.ask name = (none, s) := by rw [ask, hNobody]
      rw [hold_ask, hAsk]
      exact ih none hNobody

end Session

/-! ## The three ways -/

/-- The entries are those of a finite map, in whatever order. -/
def Enumerates (entries : List (String × Float)) (values : String → Option Float) : Prop :=
  ∀ name value, (name, value) ∈ entries ↔ values name = some value

/-- The bindings of all entries, made one after the other. -/
def Bindings.ofEntries (entries : List (String × Float)) : Bindings :=
  entries.foldl (fun b entry => b.insert entry.1 entry.2) ∅

/-- The values without those for the named constants. -/
def unshadowed (values : String → Option Float) (name : String) : Option Float :=
  if name = "pi" ∨ name = "e" then none else values name

namespace Session

/-- A session with the given bindings and nobody to ask. -/
def silent (bindings : Bindings) : Session Unit :=
  { bindings, resolver := none, memory := (), asked := [], said := "" }

/-- A session with nothing bound and somebody to ask. -/
def attended {σ : Type} (answer : String → σ → Option Float × σ) (memory : σ) : Session σ :=
  { bindings := ∅, resolver := some answer, memory, asked := [], said := "" }

end Session

/-- The ways to evaluate an expression with the given values: they are bound, one
after the other and with nobody to ask; or nothing is bound and somebody answers
with them; or constants are put in for them, and nothing is bound and nobody to
ask. -/
inductive Provided (values : String → Option Float) (e : Expr) : Except EvalError Float → Prop
  | bound {entries : List (String × Float)} (hEntries : Enumerates entries values) :
      Provided values e ((Session.silent (.ofEntries entries)).eval e).1
  | answered {σ : Type} {answer : String → σ → Option Float × σ}
      (hAnswer : ∀ name memory, (answer name memory).1 = values name) (memory : σ) :
      Provided values e ((Session.attended answer memory).eval e).1
  | putIn : Provided values e (e.substitute (unshadowed values)).value

/-- Entries that agree with a map bind what the map has for their names, and
leave the others as they were. -/
private theorem get?_foldl_insert {values : String → Option Float}
    {entries : List (String × Float)}
    (hEntries : ∀ entry ∈ entries, values entry.1 = some entry.2) (b : Bindings) (name : String) :
    (entries.foldl (fun b entry => b.insert entry.1 entry.2) b).get? name =
      if name ∈ entries.map Prod.fst then values name else b.get? name := by
  induction entries generalizing b with
  | nil => simp
  | cons entry entries ih =>
      obtain ⟨hFirst, hRest⟩ := List.forall_mem_cons.1 hEntries
      rw [List.foldl_cons, ih hRest, List.map_cons]
      by_cases hName : name = entry.1
      · subst hName
        simp [hFirst]
      · simp only [List.mem_cons, hName, false_or, Bindings.get?_insert_of_ne hName]

theorem Bindings.get?_ofEntries {entries : List (String × Float)}
    {values : String → Option Float} (hEntries : Enumerates entries values) (name : String) :
    (ofEntries entries).get? name = values name := by
  rw [ofEntries, get?_foldl_insert fun entry hEntry => (hEntries _ _).1 hEntry]
  split
  · rfl
  · next hOther =>
      cases hValue : values name with
      | none => rfl
      | some value =>
          exact absurd (List.mem_map_of_mem ((hEntries name value).2 hValue)) hOther

/-- The named constants are in front of the values. -/
theorem unshadowed_or_constant? {values : String → Option Float} (name : String) :
    (constant? name).or (values name) = (unshadowed values name).or (constant? name) := by
  by_cases hPi : name = "pi"
  · simp [hPi, constant?, unshadowed]
  · by_cases hEuler : name = "e"
    · simp [hEuler, constant?, unshadowed]
    · simp [hPi, hEuler, constant?, unshadowed]

namespace Session

variable {σ : Type} {values : String → Option Float}

theorem lookUp_fst (s : Session σ) (name : String) :
    (s.lookUp name).1 = (constant? name).or ((s.bindings.get? name).or (s.ask name).1) := by
  rw [lookUp]
  cases constant? name with
  | some value => rfl
  | none => cases s.bindings.get? name <;> rfl

theorem steady_silent (bindings : Bindings) :
    (silent bindings).Steady fun name => (constant? name).or (bindings.get? name) := by
  intro t hBindings hResolver name
  have hNobody : t.resolver = none := hResolver
  have hBound : t.bindings = bindings := hBindings
  rw [lookUp_fst, ask, hNobody, hBound, Option.or_none]

theorem steady_plain : (silent ∅).Steady constant? := by
  intro t hBindings hResolver name
  rw [steady_silent ∅ t hBindings hResolver name]
  exact Option.or_none

theorem steady_attended {answer : String → σ → Option Float × σ}
    (hAnswer : ∀ name memory, (answer name memory).1 = values name) (memory : σ) :
    (attended answer memory).Steady fun name => (constant? name).or (values name) := by
  intro t hBindings hResolver name
  have hSomebody : t.resolver = some answer := hResolver
  have hNothing : t.bindings.get? name = none := by
    rw [hBindings]
    rfl
  have hAsk : (t.ask name).1 = values name := by
    rw [ask, hSomebody]
    exact hAnswer name t.memory
  rw [lookUp_fst, hNothing, hAsk, Option.none_or]

end Session

section

variable {values values' : String → Option Float} {e : Expr}

/-- **Every way to provide values is that of putting them in.** -/
theorem Provided.eq_putIn {outcome : Except EvalError Float}
    (hProvided : Provided values e outcome) :
    outcome = (e.substitute (unshadowed values)).value := by
  have hValue : ((Session.silent ∅).eval (e.substitute (unshadowed values))).1 =
      (e.substitute (unshadowed values)).value :=
    Session.hold_alone rfl _
  rw [← hValue]
  cases hProvided with
  | bound hEntries =>
      refine Session.eval_eq_eval_substitute (fun name => ?_) (Session.steady_silent _)
        Session.steady_plain e
      rw [Bindings.get?_ofEntries hEntries, unshadowed_or_constant?]
  | answered hAnswer memory =>
      exact Session.eval_eq_eval_substitute unshadowed_or_constant?
        (Session.steady_attended hAnswer memory) Session.steady_plain e
  | putIn => exact hValue.symm

/-- **The ways to provide values are interchangeable.** Any two of them lead to the
same value or the same error, and do so too if the values differ for the named
constants. -/
theorem Provided.eq_of_agree
    (hAgree : ∀ name, name ≠ "pi" → name ≠ "e" → values name = values' name)
    {outcome outcome' : Except EvalError Float} (hProvided : Provided values e outcome)
    (hProvided' : Provided values' e outcome') : outcome = outcome' := by
  have hSame : unshadowed values = unshadowed values' := by
    funext name
    rw [unshadowed, unshadowed]
    split
    · rfl
    · next hOther =>
        rw [not_or] at hOther
        exact hAgree name hOther.1 hOther.2
  rw [hProvided.eq_putIn, hProvided'.eq_putIn, hSame]

end

/-- In `x + pi` the value for `x` is used and the one for `pi` is not, whether they
are bound, asked for from somebody who counts the questions, or put in. -/
theorem provided_eq_of_agree_shadowed :
    let sum : Expr := .var "x" + .var "pi"
    let values : String → Option Float := fun name =>
      if name = "x" then some 2 else if name = "pi" then some 3 else none
    let values' : String → Option Float := fun name => if name = "x" then some 2 else none
    Enumerates [("pi", 3), ("x", 2)] values ∧
      (∀ name, name ≠ "pi" → name ≠ "e" → values name = values' name) ∧
      Provided values' sum ((Expr.const 2 + Expr.var "pi").value) ∧
      ((Session.silent (.ofEntries [("pi", 3), ("x", 2)])).eval sum).1 =
        (Expr.const 2 + Expr.var "pi").value ∧
      ((Session.attended (fun name (count : Nat) => (values name, count + 1)) 0).eval sum).1 =
        (Expr.const 2 + Expr.var "pi").value := by
  intro sum values values'
  have hEntries : Enumerates [("pi", 3), ("x", 2)] values := by
    intro name value
    by_cases hx : name = "x"
    · subst hx
      simp [values, eq_comm]
    · by_cases hPi : name = "pi"
      · subst hPi
        simp [values, eq_comm]
      · simp [values, hx, hPi]
  have hAgree : ∀ name, name ≠ "pi" → name ≠ "e" → values name = values' name := by
    intro name hPi _
    simp [values, values', hPi]
  have hPutIn : Provided values' sum ((Expr.const 2 + Expr.var "pi").value) := .putIn
  have hAnswer : ∀ name (count : Nat), (values name, count + 1).1 = values name := by
    intro name count
    rfl
  exact ⟨hEntries, hAgree, hPutIn, Provided.eq_of_agree hAgree (.bound hEntries) hPutIn,
    Provided.eq_of_agree hAgree (.answered hAnswer 0) hPutIn⟩

end Fluxion
