/-!
# The named constants

Two names stand for numbers wherever they occur; nobody can bind them to
anything else. Their values are the numbers nearest to the mathematical
constants.

## Main results

* `constant?_eq_some_iff`, `constant?_eq_none_iff`: which names these are, and
  what they stand for.
-/

namespace Fluxion

/-- The number nearest to the ratio of a circle's circumference to its
diameter, `3.141592653589793`. -/
def pi : Float := Float.ofBits 0x400921FB54442D18

/-- The number nearest to the base of the natural logarithm,
`2.718281828459045`. -/
def euler : Float := Float.ofBits 0x4005BF0A8B145769

/-- The value of a named constant. -/
def constant? (name : String) : Option Float :=
  if name = "pi" then some pi
  else if name = "e" then some euler
  else none

theorem constant?_eq_some_iff {name : String} {value : Float} :
    constant? name = some value ↔ name = "pi" ∧ value = pi ∨ name = "e" ∧ value = euler := by
  unfold constant?
  split
  · next hPi => simp [hPi, eq_comm]
  · next hPi =>
    split
    · next hEuler => simp [hEuler, eq_comm]
    · next hEuler => simp [hPi, hEuler]

theorem constant?_eq_none_iff {name : String} :
    constant? name = none ↔ name ≠ "pi" ∧ name ≠ "e" := by
  unfold constant?
  split
  · next hPi => simp [hPi]
  · next hPi =>
    split
    · next hEuler => simp [hEuler]
    · next hEuler => simp [hPi, hEuler]

end Fluxion
