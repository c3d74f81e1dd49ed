import Fluxion.Text.CodeRange

/-!
# Characters that are drawn as nothing

A code point is ignorable if it has the property
`Default_Ignorable_Code_Point`: where it has no effect on its neighbours,
nothing is drawn for it, not even a gap. Some are letters by category, such as
the fillers that stand for a missing part of a syllable, so the property is
not a matter of categories. The ranges are those of version 17 of the
character standard; those set aside for future characters are among them.

## Main results

* `isDefaultIgnorable_ascii`: none of the first 128 code points is one.
-/

namespace Fluxion.Text

/-- The code points with the property `Default_Ignorable_Code_Point`. -/
def defaultIgnorableRanges : CodeRanges :=
   [(0x00AD, 0x00AD), (0x034F, 0x034F), (0x061C, 0x061C), (0x115F, 0x1160), (0x17B4, 0x17B5),
    (0x180B, 0x180F), (0x200B, 0x200F), (0x202A, 0x202E), (0x2060, 0x206F), (0x3164, 0x3164),
    (0xFE00, 0xFE0F), (0xFEFF, 0xFEFF), (0xFFA0, 0xFFA0), (0xFFF0, 0xFFF8), (0x1BCA0, 0x1BCA3),
    (0x1D173, 0x1D17A), (0xE0000, 0xE0FFF)]

/-- Whether nothing is drawn for a character by itself. -/
def isDefaultIgnorable (c : Char) : Bool :=
  defaultIgnorableRanges.covers c.toNat

theorem defaultIgnorableRanges_isIncreasing : defaultIgnorableRanges.isIncreasing := by
  decide +kernel

/-- None of the first 128 code points is ignorable. -/
theorem isDefaultIgnorable_ascii :
    ∀ code < 128, defaultIgnorableRanges.covers code = false := by
  decide +kernel

/-- The filler for a missing initial consonant is a letter that is drawn as
nothing. -/
example : isDefaultIgnorable (Char.ofNat 0x115F) = true := by decide

end Fluxion.Text
