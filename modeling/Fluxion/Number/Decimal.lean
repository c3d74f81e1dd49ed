import Fluxion.Number.Magnitude

/-!
# Decimals: digits and a power of ten

A `Decimal` is the exact value `digits * 10 ^ exponent`. It is what a numeral
denotes before it is rounded to a number, and what a number becomes before it
is written. Everything that has to read back goes through `Decimal.pattern`,
the one place where decimals turn into magnitudes.
-/

namespace Fluxion.Number

/-- The exact value `digits * 10 ^ exponent`. -/
structure Decimal where
  /-- The digits, read as one whole number. -/
  digits : Nat
  /-- The power of ten of the last digit. -/
  exponent : Int
  deriving DecidableEq, Repr

namespace Decimal

/-- The pattern of the magnitude nearest to the decimal. -/
def pattern (d : Decimal) : Nat :=
  nearest (d.digits * 10 ^ d.exponent.toNat) (10 ^ (-d.exponent).toNat)

/-- The digits of `n`, with zeros in front to make at least `width` of them. -/
def paddedDigits (width n : Nat) : List Char :=
  let digits := Nat.toDigits 10 n
  List.replicate (width - digits.length) '0' ++ digits

/-- Positional notation: the whole part and, if the last digit lies behind
the point, the point and every place down to that digit. No exponent is ever
written, however many zeros that takes. -/
def positional (d : Decimal) : List Char :=
  match (-d.exponent).toNat with
  | 0 => Nat.toDigits 10 (d.digits * 10 ^ d.exponent.toNat)
  | places + 1 =>
    Nat.toDigits 10 (d.digits / 10 ^ (places + 1))
      ++ '.' :: paddedDigits (places + 1) (d.digits % 10 ^ (places + 1))

/-- Scientific notation: one digit, a point and the other digits if there are
any, and the power of ten of the first digit, without a plus sign. -/
def scientific (d : Decimal) : List Char :=
  let exponent (behind : Nat) := 'e' :: (toString (d.exponent + behind)).toList
  match Nat.toDigits 10 d.digits with
  | [] => []
  | [digit] => digit :: exponent 0
  | digit :: rest => digit :: '.' :: rest ++ exponent rest.length

end Decimal

end Fluxion.Number
