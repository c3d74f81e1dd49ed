import Fluxion.Number.Decimal

/-!
# How numbers are read

A **numeral** is a run of digits with at most one point among, before or
behind them. A **literal** is a numeral that may carry a sign and an
exponent, or one of the words for what is not finite. Both denote the number
nearest to the decimal they spell; a half goes to the even pattern, and a
decimal beyond all numbers denotes infinity.

Every numeral is a literal with the same value, which is why expressions,
where signs and exponents cannot occur, and typed values can share `literal?`.
-/

namespace Fluxion.Number

/-- The whole number spelt by a run of digits; no digit at all spells zero. -/
def ofDigits (digits : List Char) : Nat :=
  Nat.ofDigitChars 10 digits 0

/-- The decimal spelt by a numeral: digits with at most one point, and at
least one digit. -/
def numeral? (text : List Char) : Option Decimal :=
  let whole := text.takeWhile Char.isDigit
  match text.dropWhile Char.isDigit with
  | [] => if whole.isEmpty then none else some ⟨ofDigits whole, 0⟩
  | '.' :: places =>
    if places.all Char.isDigit && !(whole ++ places).isEmpty then
      some ⟨ofDigits (whole ++ places), -places.length⟩
    else none
  | _ => none

/-- Splits off a leading sign; tells whether it is a minus. -/
def splitSign : List Char → Bool × List Char
  | '-' :: rest => (true, rest)
  | '+' :: rest => (false, rest)
  | text => (false, text)

/-- The power of ten spelt behind the `e` of a literal: an optional sign and
at least one digit. -/
def exponent? (text : List Char) : Option Int :=
  let (negative, digits) := splitSign text
  if digits.isEmpty || !digits.all Char.isDigit then none
  else if negative then some (-ofDigits digits) else some (ofDigits digits)

/-- Multiplies a decimal by a power of ten. The result is kept between
exponents beyond which every decimal with these digits is infinite, or zero,
so that an absurd exponent costs nothing. -/
def Decimal.scale (d : Decimal) (power : Int) : Decimal :=
  let tiny : Int := -((Nat.toDigits 10 d.digits).length + 400)
  ⟨d.digits, max tiny (min 400 (d.exponent + power))⟩

/-- The decimal spelt by a numeral with an optional exponent. -/
def decimal? (text : List Char) : Option Decimal :=
  let isMark (c : Char) := c = 'e' || c = 'E'
  match text.dropWhile (!isMark ·) with
  | [] => numeral? text
  | _ :: power => do
    let d ← numeral? (text.takeWhile (!isMark ·))
    return d.scale (← exponent? power)

/-- The number denoted by a literal. The words `inf`, `infinity` and `nan`
are read in any case. -/
def literal? (text : List Char) : Option Float :=
  let (negative, body) := splitSign text
  let word := String.ofList (body.map Char.toLower)
  if word = "inf" ∨ word = "infinity" then some (ofPattern negative infinityPattern)
  else if word = "nan" then some (ofPattern negative (infinityPattern + 2 ^ (51 : Nat)))
  else (decimal? body).map fun d => ofPattern negative d.pattern

end Fluxion.Number
