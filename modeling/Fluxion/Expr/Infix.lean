import Fluxion.Expr.Basic
import Fluxion.Number.Format

/-!
# Infix notation

An expression is written with as few parentheses as its operators allow. The
language has no negative numerals, so a constant below zero is written as a
difference in parentheses of its own.

An operand needs parentheses when its own operator binds more weakly than the
one it stands under, or equally strongly and it stands on the side to which
that operator does not group.
-/

namespace Fluxion.Expr

/-! ## Constants -/

/-- A constant as an operand: `2.5`, and `(0-2.5)` below zero. -/
def constantText (x : Float) : List Char :=
  let magnitude := Number.unsigned Number.plainMagnitude x
  if (Number.view x).belowZero then ['(', '0', '-'] ++ magnitude ++ [')'] else magnitude

/-! ## Operands -/

/-- Whether an operation with operator `child`, written without parentheses on
the given side of `parent`, would be taken apart. -/
def splitsUnder (child parent : Operator) (side : Side) : Bool :=
  if child.priority = parent.priority then side ≠ parent.associativity
  else child.priority < parent.priority

/-- Whether an operand needs parentheses on the given side of `parent`. Only
operations ever do. -/
def needsParens (parent : Operator) (side : Side) : Expr → Bool
  | binary child _ _ => splitsUnder child parent side
  | const _ | var _ | call _ _ => false

/-- Parentheses around a text, where they are wanted. -/
def enclose (wanted : Bool) (text : List Char) : List Char :=
  if wanted then '(' :: text ++ [')'] else text

/-! ## Expressions -/

mutual

/-- The characters of an expression in infix notation. -/
def written : Expr → List Char
  | const value => constantText value
  | var name => name.toList
  | binary op left right =>
    enclose (needsParens op .left left) left.written
      ++ op.symbol :: enclose (needsParens op .right right) right.written
  | call function arguments => function.toList ++ '(' :: writtenAll arguments ++ [')']

/-- Arguments separated by commas. -/
def writtenAll : List Expr → List Char
  | [] => []
  | [e] => e.written
  | e :: rest => e.written ++ ',' :: writtenAll rest

end

instance : ToString Expr := ⟨fun e => String.ofList e.written⟩

end Fluxion.Expr
