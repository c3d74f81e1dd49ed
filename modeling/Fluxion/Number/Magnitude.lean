/-!
# Magnitudes: the finite numbers on one scale

A double-precision number without its sign is known by its **pattern**, the
63 low bits of its encoding read as a natural number. Patterns are ordered
as the magnitudes they stand for, and every magnitude is a whole number of
**units**, one unit being the least positive number `2 ^ (-1074)`. So each
question about a finite number (which decimal is it, which number is nearest
to a fraction) is a question about natural numbers, asked through `units`
and answered through `nearest`, and no step of it rounds twice.

## The engineering fact the design rests on

In a binade with `shift` doublings above the subnormal spacing, the pattern
of significand `m` is `shift * 2 ^ 52 + m`: the implicit leading bit of `m`
supplies the missing one of the exponent field. The same formula covers the
subnormal numbers (`shift = 0`, `m < 2 ^ 52`), and a significand that rounds
up to `2 ^ 53` lands on the first pattern of the next binade by itself, so
`nearest` has no special case but the ceiling at infinity.
-/

namespace Fluxion.Number

-- Powers of natural numbers are `Nat.pow` here, whatever else is imported.
attribute [scoped instance (high)] instPowNat

/-! ## Rounding a ratio to a whole number -/

/-- The whole number nearest to `num / den`; a half goes to the even
neighbour. -/
def roundHalfEven (num den : Nat) : Nat :=
  let floor := num / den
  let twice := 2 * (num % den)
  if twice < den then floor
  else if den < twice then floor + 1
  else floor + floor % 2

/-! ## Patterns and units -/

/-- The units in one. -/
def unitsPerOne : Nat := 2 ^ (1074 : Nat)

/-- The pattern of infinity; the finite magnitudes have the smaller ones. -/
def infinityPattern : Nat := 0x7FF0000000000000

/-- The magnitude of a pattern, counted in units. -/
def units (pattern : Nat) : Nat :=
  if pattern < 2 ^ (52 : Nat) then pattern
  else (2 ^ (52 : Nat) + pattern % 2 ^ (52 : Nat)) * 2 ^ (pattern / 2 ^ (52 : Nat) - 1)

/-- The pattern of the magnitude nearest to `num / den`; a half goes to the
even pattern, and what is too large for any finite magnitude is infinite. -/
def nearest (num den : Nat) : Nat :=
  let scaled := num * unitsPerOne
  let shift := (scaled / den).log2 - 52
  min (shift * 2 ^ (52 : Nat) + roundHalfEven scaled (den * 2 ^ shift)) infinityPattern

/-! ## Numbers seen as sign and pattern -/

/-- What a number is, apart from how it is encoded. -/
inductive View where
  /-- Not a number. -/
  | nan
  /-- An infinity, with its sign. -/
  | infinite (negative : Bool)
  /-- A finite number: its sign and the pattern of its magnitude. -/
  | finite (negative : Bool) (pattern : Nat)
  deriving DecidableEq, Repr

/-- Whether a minus sign belongs to the number; negative zero has one. -/
def View.hasMinus : View → Bool
  | nan => false
  | infinite negative | finite negative _ => negative

/-- Whether the number lies below zero; neither zero does. -/
def View.belowZero : View → Bool
  | nan => false
  | infinite negative => negative
  | finite negative pattern => negative && pattern != 0

/-- The view of a number. -/
def view (x : Float) : View :=
  let bits := x.toBits.toNat
  let negative := decide (2 ^ (63 : Nat) ≤ bits)
  let pattern := bits % 2 ^ (63 : Nat)
  if infinityPattern < pattern then .nan
  else if pattern = infinityPattern then .infinite negative
  else .finite negative pattern

/-- The number with the given sign and pattern. -/
def ofPattern (negative : Bool) (pattern : Nat) : Float :=
  Float.ofBits (UInt64.ofNat (if negative then 2 ^ (63 : Nat) + pattern else pattern))

end Fluxion.Number
