import Fluxion.Explanation
import Fluxion.Text.Misspelling

/-!
# The functions

Five functions can be called. A name that is none of theirs can stand in an
expression that was put together by hand; it is found out where the call is
evaluated or differentiated, and so is a call with the wrong number of
arguments, which is described by an `ArgumentMismatch`.
-/

namespace Fluxion

/-- A function that can be called. -/
inductive Function where
  /-- Sine of an angle in radians. -/
  | sin
  /-- Cosine of an angle in radians. -/
  | cos
  /-- Tangent of an angle in radians. -/
  | tan
  /-- Natural exponential. -/
  | exp
  /-- Logarithm of the first argument to the base of the second. -/
  | log
  deriving DecidableEq, Repr

/-- A call to a known function with too few or too many arguments. -/
structure ArgumentMismatch where
  /-- The function that was called. -/
  function : Function
  /-- The number of arguments it was given. -/
  given : Nat
  deriving DecidableEq, Repr

namespace Function

/-- Every function, in the order in which they are listed to a reader. -/
def all : List Function :=
  [sin, cos, tan, exp, log]

/-- The name a function is called by. -/
def name : Function → String
  | sin => "sin"
  | cos => "cos"
  | tan => "tan"
  | exp => "exp"
  | log => "log"

/-- The function with the given name, if there is one. -/
def ofName? (name : String) : Option Function :=
  all.find? (·.name = name)

/-- The number of arguments a function takes. -/
def arity : Function → Nat
  | sin | cos | tan | exp => 1
  | log => 2

/-- Refuses a number of arguments that the function does not take. -/
def checkArity (f : Function) (given : Nat) : Except ArgumentMismatch Unit :=
  if f.arity = given then .ok () else .error ⟨f, given⟩

/-- The function applied to its arguments, which have to be as many as it
takes. A logarithm to a base is the quotient of two natural ones. -/
def apply : Function → List Float → Except ArgumentMismatch Float
  | sin, [x] => .ok x.sin
  | cos, [x] => .ok x.cos
  | tan, [x] => .ok x.tan
  | exp, [x] => .ok x.exp
  | log, [x, base] => .ok (x.log / base.log)
  | f, arguments => .error ⟨f, arguments.length⟩

/-- The names of all functions in one line. -/
def roster : String :=
  " ".intercalate (all.map Function.name)

/-- The names for which `name` may be a misspelling. -/
def suggestions (name : String) : List String :=
  (all.map Function.name).filter fun known =>
    Text.withinOneEdit known.toList name.toList

@[simp] theorem ofName?_name (f : Function) : ofName? f.name = some f := by
  cases f <;> decide

theorem name_of_ofName? {name : String} {f : Function} (h : ofName? name = some f) :
    f.name = name := by
  simpa using List.find?_some h

/-- A call goes through exactly if the number of arguments is right. -/
theorem apply_isOk_iff (f : Function) (arguments : List Float) :
    (∃ value, f.apply arguments = .ok value) ↔ f.checkArity arguments.length = .ok () := by
  rcases arguments with _ | ⟨a, _ | ⟨b, _ | ⟨c, rest⟩⟩⟩ <;> cases f <;>
    simp [apply, checkArity, arity]

end Function

/-- A mismatch in words. -/
def ArgumentMismatch.explanation (m : ArgumentMismatch) : Explanation where
  message := "wrong number of arguments for the `" ++ m.function.name ++ "` function"
  label := "this function call"
  help := "the `" ++ m.function.name ++ "` function takes " ++ toString m.function.arity
    ++ " argument(s); there are " ++ toString m.given ++ " argument(s) provided here"

end Fluxion
