import Fluxion.Number.Magnitude
import Mathlib

/-!
# Numbers and their encodings

A finite number is known by its sign and its pattern. What comparison,
negation and the test for being finite make of a number is defined on its
unpacked form; here it is brought back to sign and pattern.

## Main results

* `exists_of_isFinite`, `view_ofPattern` — a finite number is what its sign and
  its pattern make.
* `neg_ofPattern`, `ofPattern_lt_zero_iff`, `zero_le_ofPattern`,
  `beq_ofPattern_self` — operations on it.
-/

namespace Fluxion.Number

open Float.Model Float.Model.UnpackedFloat

/-! ## Sign, exponent and fraction -/

/-- The sign of a number. -/
def signOf (negative : Bool) : Sign :=
  if negative then .negative else .positive

/-- The encoding of a number with the given sign and pattern. -/
def encoding (negative : Bool) (pattern : Nat) : BitVec 64 :=
  packComponents Format.binary64 (signOf negative) (BitVec.ofNat 11 (pattern / 2 ^ 52))
    (BitVec.ofNat 52 pattern)

theorem toNat_encoding (negative : Bool) {pattern : Nat} (hPattern : pattern < 2 ^ 63) :
    (encoding negative pattern).toNat = if negative then 2 ^ 63 + pattern else pattern := by
  have hExponent : pattern / 2 ^ 52 % 2 ^ 11 = pattern / 2 ^ 52 := Nat.mod_eq_of_lt (by omega)
  have hFraction : pattern % 2 ^ 52 < 2 ^ 52 := Nat.mod_lt _ (by decide)
  have hSign : (signOf negative).toBitVec.toNat = if negative then 1 else 0 := by
    cases negative <;> rfl
  have hLow : (signOf negative).toBitVec.toNat <<< 11 ||| pattern / 2 ^ 52 =
      (if negative then 2 ^ 11 else 0) + pattern / 2 ^ 52 := by
    rw [← Nat.shiftLeft_add_eq_or_of_lt (by omega), hSign]
    cases negative <;> rfl
  show (packComponents Format.binary64 (signOf negative) (BitVec.ofNat 11 (pattern / 2 ^ 52))
    (BitVec.ofNat 52 pattern)).toNat = _
  rw [packComponents, BitVec.toNat_append, BitVec.toNat_append, BitVec.toNat_ofNat,
    BitVec.toNat_ofNat, hExponent, hLow, ← Nat.shiftLeft_add_eq_or_of_lt hFraction,
    Nat.shiftLeft_eq]
  cases negative
  · simp only [Bool.false_eq_true, if_false]
    omega
  · simp only [if_true]
    omega

private theorem unpackSign_packComponents {spec : Format} (sign : Sign)
    (exponent : BitVec spec.exponentBits) (fraction : BitVec spec.mantissaBitsWithoutImplicit) :
    Sign.ofBitVec (unpackSign (packComponents spec sign exponent fraction)) = sign := by
  have hBit : unpackSign (packComponents spec sign exponent fraction) = sign.toBitVec := by
    ext i hi
    obtain rfl : i = 0 := by omega
    simp [unpackSign, packComponents, BitVec.getLsbD_append, BitVec.getElem_append]
  rw [hBit]
  cases sign <;> rfl

/-! ## Unpacking -/

section

variable {pattern : Nat}

theorem lt_of_lt_infinityPattern (hPattern : pattern < infinityPattern) : pattern < 2 ^ 63 := by
  rw [infinityPattern] at hPattern
  omega

private theorem toNat_exponent (hPattern : pattern < 2 ^ 63) :
    (BitVec.ofNat 11 (pattern / 2 ^ 52)).toNat = pattern / 2 ^ 52 := by
  rw [BitVec.toNat_ofNat, Nat.mod_eq_of_lt (by omega)]

private theorem exponent_ne_ones (hPattern : pattern < infinityPattern) :
    BitVec.ofNat 11 (pattern / 2 ^ 52) ≠ -1#11 := by
  intro hOnes
  have hNat := congrArg BitVec.toNat hOnes
  rw [infinityPattern] at hPattern
  rw [toNat_exponent (by omega), show (-1#11).toNat = 2047 by decide] at hNat
  omega

private theorem toNat_significand :
    (1#1 ++ BitVec.ofNat 52 pattern).toNat = 2 ^ 52 + pattern % 2 ^ 52 := by
  rw [BitVec.toNat_append, ← Nat.shiftLeft_add_eq_or_of_lt (BitVec.ofNat 52 pattern).isLt,
    BitVec.toNat_ofNat]
  rfl

/-- From `2 ^ 52` on the number is normal. -/
private theorem unpack_encoding_normal (negative : Bool) (hNormal : 2 ^ 52 ≤ pattern)
    (hPattern : pattern < infinityPattern) :
    let significand := 2 ^ 52 + pattern % 2 ^ 52
    let exponent : Int := (pattern / 2 ^ 52 : Nat) - 1075
    ∃ hSignificand,
      UnpackedFloat.unpack Format.binary64 (encoding negative pattern) =
        .finite (signOf negative) significand exponent hSignificand ∧
      UnpackedFloat.pack Format.binary64
          (.finite (signOf negative) significand exponent hSignificand) =
        encoding negative pattern := by
  intro significand exponent
  have hSmall := lt_of_lt_infinityPattern hPattern
  have hZero : BitVec.ofNat 11 (pattern / 2 ^ 52) ≠ 0#11 := by
    intro hZero
    have hNat := congrArg BitVec.toNat hZero
    rw [toNat_exponent hSmall, show (0#11).toNat = 0 from rfl] at hNat
    omega
  have hSignificand : 0 < significand := by omega
  refine ⟨hSignificand, ?_, ?_⟩
  · rw [UnpackedFloat.unpack, encoding]
    simp only [unpackMantissa_packComponents, unpackExponent_packComponents,
      unpackSign_packComponents, if_neg (exponent_ne_ones hPattern), if_neg hZero,
      toNat_significand, toNat_exponent hSmall]
    rfl
  · have hBiased : (exponent + Format.binary64.exponentBias +
        Format.binary64.mantissaBitsWithoutImplicit).toNat = pattern / 2 ^ 52 := by
      show ((pattern / 2 ^ 52 : Nat) - 1075 + (1023 : Nat) + (52 : Nat) : Int).toNat = _
      omega
    have hExponent : ¬ 2 ^ Format.binary64.exponentBits ≤ pattern / 2 ^ 52 + 1 := by
      rw [infinityPattern] at hPattern
      show ¬ 2 ^ 11 ≤ pattern / 2 ^ 52 + 1
      omega
    have hLog : significand.log2 + 1 = Format.binary64.mantissaBits := by
      rw [(Nat.log2_eq_iff (k := 52) (Nat.ne_of_gt hSignificand)).2 ⟨by omega, by omega⟩]
      rfl
    have hFraction : BitVec.ofNat 52 significand = BitVec.ofNat 52 pattern := by
      rw [← BitVec.toNat_inj, BitVec.toNat_ofNat, BitVec.toNat_ofNat]
      omega
    rw [UnpackedFloat.pack]
    simp only [hBiased, if_neg hExponent, if_pos hLog]
    exact congrArg _ hFraction

/-- Below `2 ^ 52` the number is subnormal. -/
private theorem unpack_encoding_subnormal (negative : Bool) (hPositive : 0 < pattern)
    (hSubnormal : pattern < 2 ^ 52) :
    UnpackedFloat.unpack Format.binary64 (encoding negative pattern) =
        .finite (signOf negative) pattern (-1074) hPositive ∧
      UnpackedFloat.pack Format.binary64 (.finite (signOf negative) pattern (-1074) hPositive) =
        encoding negative pattern := by
  have hExponent : BitVec.ofNat 11 (pattern / 2 ^ 52) = 0#11 := by
    rw [Nat.div_eq_of_lt hSubnormal]
  have hNat : (BitVec.ofNat 52 pattern).toNat = pattern := by
    rw [BitVec.toNat_ofNat, Nat.mod_eq_of_lt hSubnormal]
  have hFraction : BitVec.ofNat 52 pattern ≠ 0#52 := by
    intro hZero
    rw [hZero] at hNat
    exact absurd hNat (Nat.ne_of_lt hPositive)
  constructor
  · rw [UnpackedFloat.unpack, encoding]
    simp only [unpackMantissa_packComponents, unpackExponent_packComponents,
      unpackSign_packComponents, hExponent, if_neg (show 0#11 ≠ -1#11 by decide), dif_neg hFraction,
      hNat]
    rfl
  · have hLog : ¬ pattern.log2 + 1 = Format.binary64.mantissaBits := by
      have := (Nat.log2_lt (Nat.ne_of_gt hPositive)).2 hSubnormal
      show ¬ pattern.log2 + 1 = 53
      omega
    rw [UnpackedFloat.pack, encoding, hExponent]
    simp only [if_neg hLog]
    rfl

/-- A positive magnitude unpacks to a finite number, and its parts do not
depend on the sign. -/
theorem exists_unpack_encoding (hPositive : pattern ≠ 0) (hPattern : pattern < infinityPattern) :
    ∃ significand exponent hSignificand, ∀ negative,
      UnpackedFloat.unpack Format.binary64 (encoding negative pattern) =
        .finite (signOf negative) significand exponent hSignificand ∧
      UnpackedFloat.pack Format.binary64
          (.finite (signOf negative) significand exponent hSignificand) =
        encoding negative pattern := by
  by_cases hNormal : 2 ^ 52 ≤ pattern
  · refine ⟨2 ^ 52 + pattern % 2 ^ 52, (pattern / 2 ^ 52 : Nat) - 1075, by omega,
      fun negative => ?_⟩
    have ⟨_, hUnpack⟩ := unpack_encoding_normal negative hNormal hPattern
    exact hUnpack
  · exact ⟨_, _, _, fun negative =>
      unpack_encoding_subnormal negative (Nat.pos_of_ne_zero hPositive) (Nat.lt_of_not_le hNormal)⟩

/-- What is not below infinity is not finite. -/
theorem isFinite_unpack_encoding (negative : Bool) (hInfinity : infinityPattern ≤ pattern)
    (hPattern : pattern < 2 ^ 63) :
    (UnpackedFloat.unpack Format.binary64 (encoding negative pattern)).isFinite = false := by
  have hOnes : BitVec.ofNat 11 (pattern / 2 ^ 52) = -1#11 := by
    rw [← BitVec.toNat_inj, toNat_exponent hPattern, show (-1#11).toNat = 2047 by decide]
    rw [infinityPattern] at hInfinity
    omega
  rw [UnpackedFloat.unpack, encoding]
  simp only [unpackMantissa_packComponents, unpackExponent_packComponents, hOnes]
  rw [if_pos trivial]
  split <;> rfl

theorem pack_unpack_encoding (negative : Bool) (hPattern : pattern < infinityPattern) :
    UnpackedFloat.pack Format.binary64
        (UnpackedFloat.unpack Format.binary64 (encoding negative pattern)) =
      encoding negative pattern := by
  by_cases hZero : pattern = 0
  · subst hZero
    cases negative <;> rfl
  · have ⟨_, _, _, hUnpack⟩ := exists_unpack_encoding hZero hPattern
    rw [(hUnpack negative).1, (hUnpack negative).2]

end

/-! ## Finite numbers -/

section

variable {negative : Bool} {pattern : Nat}

private theorem toBitVec_eq_encoding (hPattern : pattern < 2 ^ 63) :
    (UInt64.ofNat (if negative then 2 ^ 63 + pattern else pattern)).toBitVec =
      encoding negative pattern := by
  rw [← BitVec.toNat_inj, toNat_encoding negative hPattern]
  show (UInt64.ofNat _).toNat = _
  rw [UInt64.toNat_ofNat', Nat.mod_eq_of_lt]
  split <;> omega

theorem unpack_ofPattern (hPattern : pattern < infinityPattern) :
    (ofPattern negative pattern).toModel.unpack =
      UnpackedFloat.unpack Format.binary64 (encoding negative pattern) := by
  have hSmall := lt_of_lt_infinityPattern hPattern
  show UnpackedFloat.unpack Format.binary64 (UnpackedFloat.pack Format.binary64
    (UnpackedFloat.unpack Format.binary64 (UInt64.ofNat _).toBitVec)) = _
  rw [toBitVec_eq_encoding hSmall, pack_unpack_encoding negative hPattern]

theorem toBits_ofPattern (hPattern : pattern < infinityPattern) :
    (ofPattern negative pattern).toBits.toBitVec = encoding negative pattern := by
  have hSmall := lt_of_lt_infinityPattern hPattern
  show UnpackedFloat.pack Format.binary64
    (UnpackedFloat.unpack Format.binary64 (UInt64.ofNat _).toBitVec) = _
  rw [toBitVec_eq_encoding hSmall, pack_unpack_encoding negative hPattern]

/-- A number is known by its encoding. -/
private theorem eq_of_toBits_eq {x y : Float} (hBits : x.toBits.toBitVec = y.toBits.toBitVec) :
    x = y := by
  cases x with
  | ofModel x =>
    cases y with
    | ofModel y =>
      cases x
      cases y
      exact congrArg _ (by simpa [Float.toBits, UInt64.toBitVec_inj] using hBits)

/-- Every number has an encoding, finite or not. -/
private theorem exists_encoding (x : Float) :
    ∃ negative pattern, pattern < 2 ^ 63 ∧ x.toBits.toBitVec = encoding negative pattern := by
  refine ⟨decide (2 ^ 63 ≤ x.toBits.toNat), x.toBits.toNat % 2 ^ 63, by omega, ?_⟩
  have hBits := x.toBits.toNat_lt
  rw [← BitVec.toNat_inj, toNat_encoding _ (by omega)]
  show x.toBits.toNat = _
  split
  · next hNegative =>
    have := of_decide_eq_true hNegative
    omega
  · next hPositive =>
    have := of_decide_eq_false (Bool.not_eq_true _ ▸ hPositive)
    omega

theorem exists_of_isFinite {x : Float} (hFinite : x.isFinite = true) :
    ∃ negative pattern, pattern < infinityPattern ∧ x = ofPattern negative pattern := by
  obtain ⟨negative, pattern, hPattern, hEncoding⟩ := exists_encoding x
  have hBelow : pattern < infinityPattern := by
    refine Nat.lt_of_not_le fun hInfinity => ?_
    have hUnpacked : (UnpackedFloat.unpack Format.binary64 x.toBits.toBitVec).isFinite = true :=
      hFinite
    rw [hEncoding, isFinite_unpack_encoding negative hInfinity hPattern] at hUnpacked
    exact Bool.false_ne_true hUnpacked
  exact ⟨negative, pattern, hBelow, eq_of_toBits_eq (by rw [hEncoding, toBits_ofPattern hBelow])⟩

theorem view_ofPattern (hPattern : pattern < infinityPattern) :
    view (ofPattern negative pattern) = .finite negative pattern := by
  have hSmall := lt_of_lt_infinityPattern hPattern
  have hBits : (ofPattern negative pattern).toBits.toNat =
      if negative then 2 ^ 63 + pattern else pattern := by
    rw [← toNat_encoding negative hSmall, ← toBits_ofPattern hPattern]
    rfl
  have hMod : (if negative then 2 ^ 63 + pattern else pattern) % 2 ^ 63 = pattern := by
    cases negative
    · exact Nat.mod_eq_of_lt hSmall
    · exact (Nat.add_mod_left _ _).trans (Nat.mod_eq_of_lt hSmall)
  have hSign : decide (2 ^ 63 ≤ if negative then 2 ^ 63 + pattern else pattern) = negative := by
    cases negative
    · exact decide_eq_false (Nat.not_le.2 hSmall)
    · exact decide_eq_true (Nat.le_add_right _ _)
  rw [view, hBits, hMod, hSign, if_neg (Nat.lt_asymm hPattern), if_neg (Nat.ne_of_lt hPattern)]

theorem isFinite_ofPattern (hPattern : pattern < infinityPattern) :
    (ofPattern negative pattern).isFinite = true := by
  show (ofPattern negative pattern).toModel.unpack.isFinite = true
  rw [unpack_ofPattern hPattern]
  by_cases hZero : pattern = 0
  · subst hZero
    cases negative <;> rfl
  · have ⟨_, _, _, hUnpack⟩ := exists_unpack_encoding hZero hPattern
    rw [(hUnpack negative).1]
    rfl

theorem neg_ofPattern (hPattern : pattern < infinityPattern) :
    -(ofPattern negative pattern) = ofPattern (!negative) pattern := by
  apply eq_of_toBits_eq
  rw [toBits_ofPattern hPattern]
  show UnpackedFloat.pack Format.binary64 (ofPattern negative pattern).toModel.unpack.neg = _
  rw [unpack_ofPattern hPattern]
  by_cases hZero : pattern = 0
  · subst hZero
    cases negative <;> rfl
  · have ⟨_, _, _, hUnpack⟩ := exists_unpack_encoding hZero hPattern
    rw [(hUnpack negative).1, ← (hUnpack !negative).2]
    cases negative <;> rfl

theorem ofPattern_lt_zero_iff (hPattern : pattern < infinityPattern) :
    ofPattern negative pattern < 0 ↔ negative = true ∧ pattern ≠ 0 := by
  have hLess : ofPattern negative pattern < 0 ↔
      (ofPattern negative pattern).toModel.unpack.lt (.zero .positive) = true :=
    decide_eq_true_iff
  rw [hLess, unpack_ofPattern hPattern]
  by_cases hZero : pattern = 0
  · subst hZero
    cases negative <;> simp <;> decide
  · have ⟨_, _, _, hUnpack⟩ := exists_unpack_encoding hZero hPattern
    rw [(hUnpack negative).1]
    cases negative <;> simp [hZero, signOf, UnpackedFloat.lt, UnpackedFloat.compare]

/-- A number without a sign is not below zero, and it is a number. -/
theorem zero_le_ofPattern (hPattern : pattern ≤ infinityPattern) :
    0 ≤ ofPattern false pattern ∧ (ofPattern false pattern).isNaN = false := by
  have hOrder : 0 ≤ ofPattern false pattern ↔
      UnpackedFloat.le (.zero .positive) (ofPattern false pattern).toModel.unpack = true :=
    decide_eq_true_iff
  show _ ∧ (ofPattern false pattern).toModel.unpack.isNaN = false
  rw [hOrder]
  by_cases hInfinity : pattern = infinityPattern
  · subst hInfinity
    decide
  · have hBelow : pattern < infinityPattern := Nat.lt_of_le_of_ne hPattern hInfinity
    rw [unpack_ofPattern hBelow]
    by_cases hZero : pattern = 0
    · subst hZero
      decide
    · have ⟨_, _, _, hUnpack⟩ := exists_unpack_encoding hZero hBelow
      rw [(hUnpack false).1]
      exact ⟨rfl, rfl⟩

theorem beq_ofPattern_self (hPattern : pattern < infinityPattern) :
    (ofPattern negative pattern == ofPattern negative pattern) = true := by
  show (ofPattern negative pattern).toModel.unpack.beq
    (ofPattern negative pattern).toModel.unpack = true
  rw [unpack_ofPattern hPattern]
  by_cases hZero : pattern = 0
  · subst hZero
    cases negative <;> rfl
  · have ⟨_, _, _, hUnpack⟩ := exists_unpack_encoding hZero hPattern
    rw [(hUnpack negative).1]
    cases negative <;> simp [signOf, UnpackedFloat.beq, UnpackedFloat.compare]

end

end Fluxion.Number
