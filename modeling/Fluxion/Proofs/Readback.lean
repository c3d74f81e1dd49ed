import Fluxion.Number.Format
import Fluxion.Proofs.Grammar
import Mathlib

/-!
# Written magnitudes read back

The text of a magnitude is a numeral of the grammar, and the decimal it spells
rounds to the magnitude it was written from. On a grid that is how the decimal
was chosen; the exact expansion behind the search needs that rounding leaves
alone what is a magnitude already.

## Main results

* `nearest_eq` — a ratio that is a magnitude is rounded to it.
* `exists_spells_plainMagnitude` — a written magnitude is a numeral that reads
  back.
-/

namespace Fluxion.Number

open Grammar

/-! ## Rounding what is exact -/

private theorem roundHalfEven_mul (m : Nat) {den : Nat} (hDen : 0 < den) :
    roundHalfEven (m * den) den = m := by
  rw [roundHalfEven, Nat.mul_div_cancel _ hDen, Nat.mul_mod_left]
  exact if_pos hDen

private theorem log2_units {pattern : Nat} (hNormal : 2 ^ 52 ≤ pattern) :
    (units pattern).log2 = 52 + (pattern / 2 ^ 52 - 1) := by
  have hFraction : pattern % 2 ^ 52 < 2 ^ 52 := Nat.mod_lt _ (by decide)
  have hPos := Nat.two_pow_pos (pattern / 2 ^ 52 - 1)
  have hUnits : units pattern = (2 ^ 52 + pattern % 2 ^ 52) * 2 ^ (pattern / 2 ^ 52 - 1) :=
    if_neg (Nat.not_lt.2 hNormal)
  have hNonzero : units pattern ≠ 0 := by
    rw [hUnits]
    exact Nat.ne_of_gt (Nat.mul_pos (by omega) hPos)
  rw [Nat.log2_eq_iff hNonzero, hUnits, show 52 + (pattern / 2 ^ 52 - 1) + 1 =
    53 + (pattern / 2 ^ 52 - 1) by omega, Nat.pow_add, Nat.pow_add]
  exact ⟨Nat.mul_le_mul_right _ (by omega), Nat.mul_lt_mul_of_pos_right (by omega) hPos⟩

/-- **A ratio that is a magnitude is rounded to it.** -/
theorem nearest_eq {pattern num den : Nat} (hPattern : pattern < infinityPattern)
    (hDen : 0 < den) (hRatio : num * unitsPerOne = units pattern * den) :
    nearest num den = pattern := by
  have hQuotient : units pattern * den / den = units pattern := Nat.mul_div_cancel _ hDen
  have hRounded : ((units pattern).log2 - 52) * 2 ^ 52 +
      roundHalfEven (units pattern * den) (den * 2 ^ ((units pattern).log2 - 52)) = pattern := by
    by_cases hNormal : 2 ^ 52 ≤ pattern
    · have hShift : (units pattern).log2 - 52 = pattern / 2 ^ 52 - 1 := by
        rw [log2_units hNormal]
        omega
      have hUnits : units pattern * den =
          (2 ^ 52 + pattern % 2 ^ 52) * (den * 2 ^ (pattern / 2 ^ 52 - 1)) := by
        rw [units, if_neg (Nat.not_lt.2 hNormal), Nat.mul_assoc, Nat.mul_comm den]
      rw [hShift, hUnits, roundHalfEven_mul _ (Nat.mul_pos hDen (Nat.two_pow_pos _))]
      omega
    · have hUnits : units pattern = pattern := if_pos (Nat.lt_of_not_le hNormal)
      have hShift : pattern.log2 - 52 = 0 := by
        by_cases hZero : pattern = 0
        · rw [hZero]
          rfl
        · have := (Nat.log2_lt hZero).2 (Nat.lt_of_not_le hNormal)
          omega
      rw [hUnits, hShift, Nat.pow_zero, Nat.mul_one, roundHalfEven_mul _ hDen]
      omega
  show min _ infinityPattern = pattern
  rw [hRatio, hQuotient, hRounded]
  exact Nat.min_eq_left (Nat.le_of_lt hPattern)

/-! ## The shortest decimal -/

section

variable {pattern : Nat}

private theorem pattern_eq {digits : Nat} (places : Nat) (hPattern : pattern < infinityPattern)
    (hRatio : digits * unitsPerOne = units pattern * 10 ^ places) :
    (⟨digits, -places⟩ : Decimal).pattern = pattern := by
  have hExponent : (-(places : Int)).toNat = 0 ∧ (- -(places : Int)).toNat = places := by omega
  rw [Decimal.pattern, hExponent.1, hExponent.2, Nat.pow_zero, Nat.mul_one]
  exact nearest_eq hPattern (Nat.pow_pos (by decide)) hRatio

private theorem mul_five_pow_mul_two_pow (u places : Nat) :
    u * 5 ^ places * 2 ^ places = u * 10 ^ places := by
  rw [Nat.mul_assoc, ← Nat.mul_pow]

private theorem pattern_exactDecimal (hPattern : pattern < infinityPattern) :
    (exactDecimal pattern).pattern = pattern := by
  apply pattern_eq 1074 hPattern
  rw [unitsPerOne]
  exact mul_five_pow_mul_two_pow _ 1074

theorem pattern_shortest (hPattern : pattern < infinityPattern) :
    (shortest pattern).pattern = pattern := by
  rw [shortest]
  by_cases hZero : pattern = 0
  · rw [if_pos hZero]
    apply pattern_eq 0 hPattern
    rw [hZero, Nat.zero_mul, show units 0 = 0 from rfl, Nat.zero_mul]
  · simp only [if_neg hZero]
    generalize hSearch : List.findSome? _ (List.range 18) = found
    cases found with
    | none => exact pattern_exactDecimal hPattern
    | some d =>
        obtain ⟨i, -, hFound⟩ := List.exists_of_findSome?_eq_some hSearch
        exact pattern_of_onGrid? hFound

end

/-! ## Positional notation -/

private theorem length_paddedDigits {width n : Nat} (hWidth : 0 < width) (hn : n < 10 ^ width) :
    (Decimal.paddedDigits width n).length = width := by
  have hLength : (Nat.toDigits 10 n).length ≤ width :=
    (Nat.length_toDigits_le_iff (by decide) hWidth).2 hn
  show (List.replicate _ '0' ++ Nat.toDigits 10 n).length = width
  rw [List.length_append, List.length_replicate]
  omega

private theorem isDigit_of_mem_paddedDigits {width n : Nat} {c : Char}
    (hc : c ∈ Decimal.paddedDigits width n) : c.isDigit := by
  rcases List.mem_append.1 hc with hZero | hDigit
  · rw [List.eq_of_mem_replicate hZero]
    rfl
  · exact Nat.isDigit_of_mem_toDigits (by decide) (by decide) hDigit

private theorem ofDigits_paddedDigits (whole width n : Nat) (hWidth : 0 < width)
    (hn : n < 10 ^ width) :
    ofDigits (Nat.toDigits 10 whole ++ Decimal.paddedDigits width n) = 10 ^ width * whole + n := by
  have hValue : Nat.ofDigitChars 10 (Decimal.paddedDigits width n) 0 = n := by
    show Nat.ofDigitChars 10 (List.replicate _ '0' ++ Nat.toDigits 10 n) 0 = n
    rw [Nat.ofDigitChars_append, Nat.ofDigitChars_replicate_zero, Nat.mul_zero,
      Nat.ofDigitChars_ten_toDigits]
  rw [ofDigits, Nat.ofDigitChars_append, Nat.ofDigitChars_ten_toDigits,
    Nat.ofDigitChars_eq_ofDigitChars_zero, hValue, length_paddedDigits hWidth hn]

/-- Positional notation is a numeral. It spells the decimal itself or, when
there is no digit behind the point, a decimal of the same value. -/
private theorem exists_spells_positional (d : Decimal) :
    ∃ d' : Decimal, Spells d.positional d' ∧ d'.pattern = d.pattern := by
  rw [Decimal.positional]
  split
  · next hWhole =>
      refine ⟨_, .whole Nat.toDigits_ne_nil fun c hc =>
        Nat.isDigit_of_mem_toDigits (by decide) (by decide) hc, ?_⟩
      rw [ofDigits, Nat.ofDigitChars_ten_toDigits, Decimal.pattern, Decimal.pattern, hWhole]
      simp
  · next places hPlaces =>
      have hRest : d.digits % 10 ^ (places + 1) < 10 ^ (places + 1) :=
        Nat.mod_lt _ (Nat.pow_pos (by decide))
      have hDigits : ∀ c ∈ Nat.toDigits 10 (d.digits / 10 ^ (places + 1)) ++
          Decimal.paddedDigits (places + 1) (d.digits % 10 ^ (places + 1)), c.isDigit := by
        intro c hc
        rcases List.mem_append.1 hc with hFront | hBehind
        · exact Nat.isDigit_of_mem_toDigits (by decide) (by decide) hFront
        · exact isDigit_of_mem_paddedDigits hBehind
      refine ⟨_, .point (by simp [Nat.toDigits_ne_nil]) hDigits, ?_⟩
      have hExponent : d.exponent = -(places + 1 : Nat) := by omega
      rw [ofDigits_paddedDigits _ _ _ (Nat.succ_pos _) hRest, Nat.div_add_mod,
        length_paddedDigits (Nat.succ_pos _) hRest, ← hExponent]

/-- **A written magnitude is a numeral that reads back.** -/
theorem exists_spells_plainMagnitude {pattern : Nat} (hPattern : pattern < infinityPattern) :
    ∃ d : Decimal, Spells (plainMagnitude pattern) d ∧ d.pattern = pattern := by
  obtain ⟨d, hSpells, hSame⟩ := exists_spells_positional (shortest pattern)
  exact ⟨d, hSpells, hSame.trans (pattern_shortest hPattern)⟩

end Fluxion.Number
