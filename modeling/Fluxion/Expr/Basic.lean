import Fluxion.Constant
import Fluxion.Operator

/-!
# Expressions

An expression is a constant, a variable, a binary operation or a call. Calls
carry a name and any number of arguments, because an expression may be put
together by hand; whether the name and the number are right is asked where a
call is evaluated or differentiated.

Two expressions are equal in the sense of `==` if they have the same shape,
operators and names, and constants that compare equal as numbers. So a
constant that is not a number makes an expression differ from itself, and the
two zeros are one.

## Main results

* `sizes_eq_sum`: the size of a list of arguments is the sum of their sizes,
  which lets every statement about `size` speak of the sum.
* `size_pos`: no expression is empty.
-/

namespace Fluxion

/-- An expression. -/
inductive Expr where
  /-- A number. -/
  | const (value : Float)
  /-- A variable, which gets its value where the expression is evaluated. -/
  | var (name : String)
  /-- Two expressions joined by an operator. -/
  | binary (op : Operator) (left right : Expr)
  /-- A call of the named function. -/
  | call (function : String) (arguments : List Expr)

namespace Expr

/-! ## Building expressions -/

instance : Inhabited Expr := ⟨const 0⟩

instance : Add Expr := ⟨binary .add⟩
instance : Sub Expr := ⟨binary .sub⟩
instance : Mul Expr := ⟨binary .mul⟩
instance : Div Expr := ⟨binary .div⟩
instance : HPow Expr Expr Expr := ⟨binary .pow⟩

/-- The natural logarithm, written as a logarithm to the base `e`. -/
def ln (e : Expr) : Expr :=
  call "log" [e, const euler]

/-! ## Size -/

mutual

/-- The number of nodes. -/
def size : Expr → Nat
  | const _ | var _ => 1
  | binary _ left right => 1 + left.size + right.size
  | call _ arguments => 1 + sizes arguments

/-- The number of nodes of all expressions of a list. -/
def sizes : List Expr → Nat
  | [] => 0
  | e :: rest => e.size + sizes rest

end

-- The zero of the sum is the numeral, whatever else is imported.
attribute [local instance (high)] Zero.ofOfNat0 in
theorem sizes_eq_sum (es : List Expr) : sizes es = (es.map size).sum := by
  induction es with
  | nil => rfl
  | cons e es ih => simp [sizes, ih]

theorem size_pos (e : Expr) : 0 < e.size := by
  cases e <;> simp only [size] <;> omega

/-! ## Equality -/

mutual

/-- Same shape, same names, and constants that compare equal. -/
def beq : Expr → Expr → Bool
  | const a, const b => a == b
  | var a, var b => a == b
  | binary p a b, binary q c d => p == q && a.beq c && b.beq d
  | call f as, call g bs => f == g && beqAll as bs
  | _, _ => false

/-- Equal expressions in equal places, and equally many of them. -/
def beqAll : List Expr → List Expr → Bool
  | [], [] => true
  | a :: as, b :: bs => a.beq b && beqAll as bs
  | _, _ => false

end

instance : BEq Expr := ⟨beq⟩

end Expr

end Fluxion
