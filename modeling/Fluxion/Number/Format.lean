import Fluxion.Number.Shortest

/-!
# How numbers are written

Four texts of a number, which differ in the digits they keep and in where the
point goes. All of them write the sign of a negative number, zero included,
and share the words for what is not finite.

* `plain` writes the shortest digits that read back, positionally.
* `fixed` writes a given number of places behind the point.
* `scientific` writes a given number of digits behind the leading one.
* `explicit` writes the shortest digits so that the text cannot be taken for
  a whole number: with a point or with an exponent.
-/

namespace Fluxion.Number

/-- The text of a number without its sign, given the texts of the finite
magnitudes. -/
def unsigned (magnitude : Nat → List Char) (x : Float) : List Char :=
  match view x with
  | .nan => ['N', 'a', 'N']
  | .infinite _ => ['i', 'n', 'f']
  | .finite _ pattern => magnitude pattern

/-- The text of a number, given the texts of the finite magnitudes. -/
def signed (magnitude : Nat → List Char) (x : Float) : List Char :=
  (if (view x).hasMinus then ['-'] else []) ++ unsigned magnitude x

/-- The shortest digits of a magnitude, positionally. -/
def plainMagnitude (pattern : Nat) : List Char :=
  (shortest pattern).positional

/-- The shortest digits that read back, positionally: `2`, `0.1`, `-0`. -/
def plain : Float → List Char :=
  signed plainMagnitude

/-- A magnitude rounded to `places` behind the point, a half to even. -/
def roundedTo (places : Nat) (pattern : Nat) : Decimal :=
  ⟨roundHalfEven (units pattern * 10 ^ places) unitsPerOne, -places⟩

/-- Exactly `places` digits behind the point: `3.00000` for five places. -/
def fixed (places : Nat) : Float → List Char :=
  signed fun pattern => (roundedTo places pattern).positional

/-- A magnitude rounded to `places` digits behind its leading one. Rounding
up to the next power of ten moves the leading digit. -/
def leadingDigits (places : Nat) (pattern : Nat) : Decimal :=
  let exponent := decade pattern - places
  let digits := roundHalfEven (units pattern * 10 ^ (-exponent).toNat)
    (unitsPerOne * 10 ^ exponent.toNat)
  if digits = 10 ^ (places + 1) then ⟨10 ^ places, exponent + 1⟩ else ⟨digits, exponent⟩

/-- One digit, a point, `places` more digits and the exponent:
`3.00e0` for two places. -/
def scientific (places : Nat) : Float → List Char :=
  signed fun pattern =>
    if pattern = 0 then '0' :: '.' :: List.replicate places '0' ++ ['e', '0']
    else (leadingDigits places pattern).scientific

/-- The shortest digits with a point, `5.0`; below `10 ^ (-4)` and from
`10 ^ 16` on in scientific notation, `1e16`. -/
def explicit : Float → List Char :=
  signed fun pattern =>
    let d := shortest pattern
    let leading := decade pattern
    if pattern ≠ 0 ∧ (leading < -4 ∨ 16 ≤ leading) then d.scientific
    else if d.exponent < 0 then d.positional
    else d.positional ++ ['.', '0']

end Fluxion.Number
