/-!
# Ranges of code points

A property of characters that no rule describes is kept as the list of its
maximal ranges, in increasing order. The search for a code point ends at the
first range that begins behind it, which is why the order matters; whether a
list has it is decided by `isIncreasing`.
-/

namespace Fluxion.Text

/-- Ranges of code points, each with its first and its last one. -/
abbrev CodeRanges := List (Nat × Nat)

namespace CodeRanges

/-- Whether a code point lies in one of the ranges, which have to be in
increasing order. -/
def covers : CodeRanges → Nat → Bool
  | [], _ => false
  | (first, last) :: rest, code => first ≤ code && (code ≤ last || covers rest code)

/-- Whether all ranges are in order and lie behind `bound`, with a gap before
each. -/
def isIncreasingFrom (bound : Nat) : CodeRanges → Bool
  | [] => true
  | (first, last) :: rest => bound ≤ first && first ≤ last && isIncreasingFrom (last + 2) rest

/-- Whether the ranges are in order, with a gap between neighbours. -/
def isIncreasing (ranges : CodeRanges) : Bool :=
  isIncreasingFrom 0 ranges

private theorem le_first_of_mem {bound : Nat} {ranges : CodeRanges}
    (hOrder : isIncreasingFrom bound ranges) {range : Nat × Nat} (hMem : range ∈ ranges) :
    bound ≤ range.1 := by
  induction ranges generalizing bound with
  | nil => cases hMem
  | cons head rest ih =>
    obtain ⟨first, last⟩ := head
    simp only [isIncreasingFrom, Bool.and_eq_true, decide_eq_true_eq] at hOrder
    rcases List.mem_cons.1 hMem with rfl | hRest
    · exact hOrder.1.1
    · have hLater : last + 2 ≤ range.1 := ih hOrder.2 hRest
      omega

private theorem covers_iff_of_from {bound : Nat} {ranges : CodeRanges}
    (hOrder : isIncreasingFrom bound ranges) (code : Nat) :
    covers ranges code ↔ ∃ range ∈ ranges, range.1 ≤ code ∧ code ≤ range.2 := by
  induction ranges generalizing bound with
  | nil => simp [covers]
  | cons head rest ih =>
    obtain ⟨first, last⟩ := head
    simp only [isIncreasingFrom, Bool.and_eq_true, decide_eq_true_eq] at hOrder
    simp only [covers, Bool.and_eq_true, Bool.or_eq_true, decide_eq_true_eq, ih hOrder.2]
    constructor
    · rintro ⟨hFirst, hLast | ⟨range, hMem, hIn⟩⟩
      · exact ⟨(first, last), by simp, hFirst, hLast⟩
      · exact ⟨range, by simp [hMem], hIn⟩
    · rintro ⟨range, hMem, hIn⟩
      rcases List.mem_cons.1 hMem with rfl | hRest
      · exact ⟨hIn.1, .inl hIn.2⟩
      · have hLater : last + 2 ≤ range.1 := le_first_of_mem hOrder.2 hRest
        exact ⟨by omega, .inr ⟨range, hRest, hIn⟩⟩

/-- **The search finds what the ranges hold**, if they are in order. -/
theorem covers_iff {ranges : CodeRanges} (hOrder : ranges.isIncreasing) (code : Nat) :
    ranges.covers code ↔ ∃ range ∈ ranges, range.1 ≤ code ∧ code ≤ range.2 :=
  covers_iff_of_from hOrder code

end CodeRanges

end Fluxion.Text
