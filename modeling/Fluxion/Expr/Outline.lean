import Fluxion.Expr.Basic
import Fluxion.Number.Format

/-!
# Outlines

An outline shows the shape of an expression: a line for each node, holding
its operator, constant, variable or function, and the operands or arguments
one level deeper beneath it. It is kept as a list of labelled depths and
turned into text by `outlineText` alone, so that the text of an outline has a
line for each of its entries.

## Main results

* `length_outline`: an outline has as many lines as the expression has nodes.
-/

namespace Fluxion.Expr

/-- A line of an outline. -/
structure OutlineLine where
  /-- How deep the node lies below the root. -/
  depth : Nat
  /-- What is written for the node. -/
  label : List Char
  deriving DecidableEq, Repr

mutual

/-- The lines of an expression whose root lies at the given depth. -/
def outline (depth : Nat) : Expr → List OutlineLine
  | const value => [⟨depth, Number.plain value⟩]
  | var name => [⟨depth, name.toList⟩]
  | binary op left right =>
    ⟨depth, [op.symbol]⟩ :: left.outline (depth + 1) ++ right.outline (depth + 1)
  | call function arguments =>
    ⟨depth, function.toList ++ ['(', ')']⟩ :: outlineAll (depth + 1) arguments

/-- The lines of several expressions at the same depth. -/
def outlineAll (depth : Nat) : List Expr → List OutlineLine
  | [] => []
  | e :: rest => e.outline depth ++ outlineAll depth rest

end

/-- A line as it is shown, indented by two blanks a level. -/
def OutlineLine.text (line : OutlineLine) : List Char :=
  List.replicate (2 * line.depth) ' ' ++ line.label

/-- The outline of an expression as one text, without a line break at its
end. -/
def outlineText (e : Expr) : String :=
  String.ofList (List.intercalate ['\n'] ((e.outline 0).map OutlineLine.text))

mutual

/-- **An outline has one line for each node.** -/
theorem length_outline (e : Expr) (depth : Nat) : (e.outline depth).length = e.size := by
  cases e with
  | const _ => rfl
  | var _ => rfl
  | binary op left right =>
    simp [outline, size, length_outline left, length_outline right, Nat.add_comm, Nat.add_assoc]
  | call function arguments =>
    simp [outline, size, length_outlineAll arguments, Nat.add_comm]

/-- The same for several expressions. -/
theorem length_outlineAll (es : List Expr) (depth : Nat) :
    (outlineAll depth es).length = sizes es := by
  cases es with
  | nil => rfl
  | cons e rest => simp [outlineAll, sizes, length_outline e, length_outlineAll rest]

end

end Fluxion.Expr
