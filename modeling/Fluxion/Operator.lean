/-!
# The binary operators

Five operators, each written as one character. An operator with a lower
priority binds more weakly; operators of equal priority group to one
side, their associativity.
-/

namespace Fluxion

/-- A side of an operator. -/
inductive Side where
  /-- Before the operator. -/
  | left
  /-- Behind the operator. -/
  | right
  deriving DecidableEq, Repr

/-- A binary operator. -/
inductive Operator where
  /-- Sum. -/
  | add
  /-- Difference. -/
  | sub
  /-- Product. -/
  | mul
  /-- Quotient. -/
  | div
  /-- Power. -/
  | pow
  deriving DecidableEq, Repr

namespace Operator

/-- The character an operator is written as. -/
def symbol : Operator → Char
  | add => '+'
  | sub => '-'
  | mul => '*'
  | div => '/'
  | pow => '^'

/-- The operator written as the given character, if it is one. -/
def ofChar? : Char → Option Operator
  | '+' => some add
  | '-' => some sub
  | '*' => some mul
  | '/' => some div
  | '^' => some pow
  | _ => none

/-- The operator a text stands for. A run of several operator characters,
such as `*-`, is none. -/
def ofText? (text : List Char) : Option Operator :=
  match text with
  | [c] => ofChar? c
  | _ => none

/-- The binding strength; a lower priority binds more weakly. -/
def priority : Operator → Nat
  | add | sub => 1
  | mul | div => 10
  | pow => 20

/-- The side to which operators of equal priority group: powers to the right,
so that `a^b^c` is `a^(b^c)`, everything else to the left. -/
def associativity : Operator → Side
  | pow => .right
  | add | sub | mul | div => .left

/-- The operator applied to two numbers. -/
def apply : Operator → Float → Float → Float
  | add => (· + ·)
  | sub => (· - ·)
  | mul => (· * ·)
  | div => (· / ·)
  | pow => Float.pow

@[simp] theorem ofChar?_symbol (op : Operator) : ofChar? op.symbol = some op := by
  cases op <;> rfl

theorem symbol_of_ofChar? {c : Char} {op : Operator} (h : ofChar? c = some op) :
    op.symbol = c := by
  unfold ofChar? at h
  split at h <;> cases h <;> rfl

/-- Every priority lies strictly between the bounds that the nesting of
parentheses leaves to operators. -/
theorem priority_bounds (op : Operator) : 1 ≤ op.priority ∧ op.priority ≤ 20 := by
  cases op <;> decide

/-- Operators of equal priority group to the same side. -/
theorem associativity_eq_of_priority_eq {a b : Operator} (h : a.priority = b.priority) :
    a.associativity = b.associativity := by
  revert h
  cases a <;> cases b <;> decide

end Operator

end Fluxion
