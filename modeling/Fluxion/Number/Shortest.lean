import Fluxion.Number.Decimal

/-!
# The shortest decimal that reads back

Of all decimals that round to a given magnitude, `shortest` takes one with
the fewest digits and, among those, the nearest. It looks at one decimal grid
after the other, from coarse to fine. If any point of a grid rounds to the
magnitude, then so does one of the magnitude's two neighbours on that grid,
so two candidates a grid are enough; and each candidate is tested by the very
function that reads decimals, so the result reads back by construction.
Seventeen digits always suffice, and the exact expansion stands behind the
search, which leaves the reading law without side condition.

An exact tie between the two neighbours goes up.

## Main results

* `pattern_of_onGrid?`: a decimal found on a grid reads back.
-/

namespace Fluxion.Number

/-- The power of ten of the leading digit of a positive magnitude: the `k`
with `10 ^ k ≤ v < 10 ^ (k + 1)`. Below one it is read off the reciprocal,
whose ceiling is one more than `(unitsPerOne - 1) / units`. -/
def decade (pattern : Nat) : Int :=
  let u := units pattern
  if unitsPerOne ≤ u then (Nat.toDigits 10 (u / unitsPerOne)).length - 1
  else -(Nat.toDigits 10 ((unitsPerOne - 1) / u)).length

/-- The neighbour of the magnitude on the grid of multiples of `10 ^ k` that
reads back; the nearer if both do, the upper if they are equally near. -/
def onGrid? (pattern : Nat) (k : Int) : Option Decimal :=
  let num := units pattern * 10 ^ (-k).toNat
  let den := unitsPerOne * 10 ^ k.toNat
  let lower : Decimal := ⟨num / den, k⟩
  let upper : Decimal := ⟨num / den + 1, k⟩
  if lower.pattern = pattern ∧ (2 * (num % den) < den ∨ upper.pattern ≠ pattern) then some lower
  else if upper.pattern = pattern then some upper
  else none

/-- **A decimal found on a grid reads back.** -/
theorem pattern_of_onGrid? {pattern : Nat} {k : Int} {d : Decimal}
    (hFound : onGrid? pattern k = some d) : d.pattern = pattern := by
  unfold onGrid? at hFound
  simp only at hFound
  split at hFound
  · next hLower =>
    cases hFound
    exact hLower.1
  · split at hFound
    · next hUpper =>
      cases hFound
      exact hUpper
    · cases hFound

/-- The magnitude with every digit of its expansion. -/
def exactDecimal (pattern : Nat) : Decimal :=
  ⟨units pattern * 5 ^ (1074 : Nat), -1074⟩

/-- The decimal with the fewest digits that reads back, and the nearest of
those; zero is `0`. -/
def shortest (pattern : Nat) : Decimal :=
  if pattern = 0 then ⟨0, 0⟩
  else
    let coarsest := decade pattern + 1
    ((List.range 18).findSome? fun (i : Nat) => onGrid? pattern (coarsest - i)).getD
      (exactDecimal pattern)

end Fluxion.Number
