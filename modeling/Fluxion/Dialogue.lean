/-!
# Dialogues: computations that talk while they run

A computation may have something to say on the way, and may need to ask for
the value of a name. A `Dialogue` is such a computation as plain data: what is
said and asked, in order, and how it goes on after each answer. Whoever holds
the other end is not part of it, so a statement about a dialogue is one about
every way of answering, whatever the answers depend on.

A question is answered with a number or declined. `play` holds the dialogue
with the means of any monad, a terminal or a state; `alone` holds it with
nobody.

## Main results

* `play_bind`: playing one dialogue after another is playing the two in turn.
-/

namespace Fluxion

/-- A computation of an `α` that says texts and asks for the values of
names. -/
inductive Dialogue (α : Type) where
  /-- It is over. -/
  | done (result : α)
  /-- It says a text and goes on. -/
  | say (text : String) (next : Dialogue α)
  /-- It asks for the value of a name and goes on with the answer; there is
  none if the question is declined. -/
  | ask (name : String) (next : Option Float → Dialogue α)

namespace Dialogue

/-- One dialogue, and then another that depends on its result. -/
def bind (d : Dialogue α) (continuation : α → Dialogue β) : Dialogue β :=
  match d with
  | done result => continuation result
  | say text next => say text (next.bind continuation)
  | ask name next => ask name fun answer => (next answer).bind continuation

instance : Monad Dialogue where
  pure := done
  bind := bind

@[simp] theorem pure_eq (a : α) : (pure a : Dialogue α) = done a := rfl

@[simp] theorem done_bind (a : α) (f : α → Dialogue β) : (done a >>= f) = f a := rfl

@[simp] theorem say_bind (text : String) (d : Dialogue α) (f : α → Dialogue β) :
    (say text d >>= f) = say text (d >>= f) := rfl

@[simp] theorem ask_bind (name : String) (next : Option Float → Dialogue α) (f : α → Dialogue β) :
    (ask name next >>= f) = ask name fun answer => next answer >>= f := rfl

theorem bind_done (d : Dialogue α) : (d >>= done) = d := by
  induction d with
  | done a => rfl
  | say text d ih => rw [say_bind, ih]
  | ask name next ih => rw [ask_bind]; congr; funext answer; exact ih answer

theorem bind_bind (d : Dialogue α) (f : α → Dialogue β) (g : β → Dialogue γ) :
    (d >>= f >>= g) = d >>= fun a => f a >>= g := by
  induction d with
  | done a => rfl
  | say text d ih => simp only [say_bind, ih]
  | ask name next ih => simp only [ask_bind]; congr; funext answer; exact ih answer

instance : LawfulMonad Dialogue :=
  LawfulMonad.mk' Dialogue bind_done (fun _ _ => rfl) bind_bind

/-- Holds a dialogue with the given means of listening and answering. -/
def play [Monad m] (listen : String → m Unit) (answer : String → m (Option Float)) :
    Dialogue α → m α
  | done result => pure result
  | say text next => do
    listen text
    next.play listen answer
  | ask name next => do
    let value ← answer name
    (next value).play listen answer

/-- Holds a dialogue with nobody: every question is declined. -/
def alone : Dialogue α → α
  | done result => result
  | say _ next => next.alone
  | ask _ next => (next none).alone

/-- **Dialogues are played in turn.** -/
theorem play_bind [Monad m] [LawfulMonad m] (listen : String → m Unit)
    (answer : String → m (Option Float)) (d : Dialogue α) (f : α → Dialogue β) :
    (d >>= f).play listen answer =
      d.play listen answer >>= fun a => (f a).play listen answer := by
  induction d with
  | done a => simp [play]
  | say text d ih => simp [play, ih]
  | ask name next ih => simp [play, ih]

@[simp] theorem alone_bind (d : Dialogue α) (f : α → Dialogue β) :
    (d >>= f).alone = (f d.alone).alone := by
  induction d with
  | done a => rfl
  | say text d ih => simpa [alone] using ih
  | ask name next ih => simpa [alone] using ih none

end Dialogue

end Fluxion
