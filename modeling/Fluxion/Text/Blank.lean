/-!
# Blank characters

The blank characters are those with the `White_Space` property of the
character standard, twenty-five in all. Trimming takes them off both ends of
a line and leaves those between other characters alone.
-/

namespace Fluxion.Text

/-- The characters with the `White_Space` property. -/
def isBlank (c : Char) : Bool :=
  (0x09 ≤ c.toNat && c.toNat ≤ 0x0D) || c.toNat = 0x20 || c.toNat = 0x85 || c.toNat = 0xA0
    || c.toNat = 0x1680 || (0x2000 ≤ c.toNat && c.toNat ≤ 0x200A) || c.toNat = 0x2028
    || c.toNat = 0x2029 || c.toNat = 0x202F || c.toNat = 0x205F || c.toNat = 0x3000

/-- The text without the blanks at either end. -/
def trim (text : List Char) : List Char :=
  ((text.dropWhile isBlank).reverse.dropWhile isBlank).reverse

/-- What counts as white space elsewhere is blank here. -/
theorem isBlank_of_isWhitespace {c : Char} (hc : c.isWhitespace) : isBlank c := by
  simp only [Char.isWhitespace, Bool.or_eq_true, decide_eq_true_eq] at hc
  rcases hc with ((rfl | rfl) | rfl) | rfl <;> decide

/-- Trimming blanks alone leaves nothing. -/
example : trim [' ', '\t', ' '] = [] := by decide

/-- Blanks inside a text stay. -/
example : trim [' ', 'a', ' ', 'b', '\n'] = ['a', ' ', 'b'] := by decide

end Fluxion.Text
