/-!
# Misspellings: at most one edit apart

One edit inserts, deletes or replaces a single element. Two sequences are
taken for spellings of one word if at most one edit leads from the one to the
other. An edit inside a shared beginning is never needed, so the test walks
to the first difference and compares what is left there in the three ways
that one edit can bring about.
-/

namespace Fluxion.Text

/-- At most one insertion, deletion or replacement leads from the one
sequence to the other. -/
def withinOneEdit [BEq α] : List α → List α → Bool
  | [], right => right.length ≤ 1
  | left, [] => left.length ≤ 1
  | a :: left, b :: right =>
    if a == b then withinOneEdit left right
    else left == right || left == b :: right || a :: left == right

/-- A sequence is within one edit of itself. -/
@[simp] theorem withinOneEdit_self [BEq α] [ReflBEq α] (word : List α) :
    withinOneEdit word word = true := by
  induction word with
  | nil => rfl
  | cons a word ih => simp [withinOneEdit, ih]

example : withinOneEdit ['s', 'i', 'n', 'e'] ['s', 'i', 'n'] = true := by decide

example : withinOneEdit ['s', 'q', 'r', 't'] ['s', 'i', 'n'] = false := by decide

end Fluxion.Text
