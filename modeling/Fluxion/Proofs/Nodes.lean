import Fluxion.Expr.Derivative

/-!
# The nodes of an expression

Read from left to right, each one before its operands or arguments, the nodes
of an expression are a plain list. Whatever is looked at once for each node,
in this order, can be stated and followed along that list, without any
recursion over the expression.

## Main results

* `length_nodes` — there are as many nodes as the size says.
* `every_binary`, `every_call` — what it means that every node is of some
  sort, constructor by constructor.
-/

namespace Fluxion

/-- A node of an expression, without what stands under it. -/
inductive Node where
  | const (value : Float)
  | var (name : String)
  | operation (op : Operator)
  /-- A call, with the number of its arguments. -/
  | call (function : String) (given : Nat)

/-- The name of a variable. -/
def Node.variable? : Node → Option String
  | var name => some name
  | const _ | operation _ | call _ _ => none

/-- What is wrong with a call by itself, whatever its arguments are. -/
inductive CallFault where
  /-- It calls a name that is no function's. -/
  | unknownFunction (name : String)
  /-- It has too few or too many arguments. -/
  | argumentMismatch (mismatch : ArgumentMismatch)
  deriving DecidableEq, Repr

/-- What is wrong with a node: its name first, then the number of its
arguments. -/
def Node.fault? : Node → Option CallFault
  | call function given =>
    match Function.ofName? function with
    | none => some (.unknownFunction function)
    | some f => if f.arity = given then none else some (.argumentMismatch ⟨f, given⟩)
  | const _ | var _ | operation _ => none

theorem Node.fault?_call_name (f : Function) (given : Nat) :
    (call f.name given).fault? =
      if f.arity = given then none else some (.argumentMismatch ⟨f, given⟩) := by
  rw [fault?, Function.ofName?_name]

namespace Expr

mutual

/-- The nodes from left to right, each before what stands under it. -/
def nodes : Expr → List Node
  | const value => [.const value]
  | var name => [.var name]
  | binary op left right => .operation op :: (left.nodes ++ right.nodes)
  | call function arguments => .call function arguments.length :: nodesAll arguments

/-- The nodes of several expressions, one after the other. -/
def nodesAll : List Expr → List Node
  | [] => []
  | e :: rest => e.nodes ++ nodesAll rest

end

mutual

theorem length_nodes (e : Expr) : e.nodes.length = e.size := by
  cases e with
  | const value => rfl
  | var name => rfl
  | binary op left right =>
      rw [nodes, List.length_cons, List.length_append, length_nodes left, length_nodes right, size]
      omega
  | call function arguments =>
      rw [nodes, List.length_cons, length_nodesAll arguments, size, Nat.add_comm]

theorem length_nodesAll (es : List Expr) : (nodesAll es).length = sizes es := by
  cases es with
  | nil => rfl
  | cons e rest => rw [nodesAll, List.length_append, length_nodes e, length_nodesAll rest, sizes]

end

/-- The names of the variables, as often as they occur. -/
def vars (e : Expr) : List String :=
  e.nodes.filterMap Node.variable?

theorem mem_vars {e : Expr} {name : String} :
    name ∈ e.vars ↔ .var name ∈ e.nodes := by
  rw [vars, List.mem_filterMap]
  constructor
  · rintro ⟨node, hNode, hName⟩
    cases node with
    | var other =>
        cases hName
        exact hNode
    | const | operation | call => cases hName
  · intro hNode
    exact ⟨_, hNode, rfl⟩

/-! ## Every node -/

/-- Every node of the expression has the property. -/
def Every (P : Node → Prop) (e : Expr) : Prop :=
  ∀ node ∈ e.nodes, P node

section

variable {P : Node → Prop}

@[simp] theorem every_const (value : Float) : (const value).Every P ↔ P (.const value) := by
  simp [Every, nodes]

@[simp] theorem every_var (name : String) : (var name).Every P ↔ P (.var name) := by
  simp [Every, nodes]

@[simp] theorem every_binary (op : Operator) (left right : Expr) :
    (binary op left right).Every P ↔ P (.operation op) ∧ left.Every P ∧ right.Every P := by
  simp [Every, nodes, or_imp, forall_and]

theorem forall_mem_nodesAll (es : List Expr) :
    (∀ node ∈ nodesAll es, P node) ↔ ∀ e ∈ es, e.Every P := by
  induction es with
  | nil => simp [nodesAll]
  | cons e rest ih =>
      rw [nodesAll, List.forall_mem_append, ih, List.forall_mem_cons]
      rfl

@[simp] theorem every_call (function : String) (arguments : List Expr) :
    (call function arguments).Every P ↔
      P (.call function arguments.length) ∧ ∀ e ∈ arguments, e.Every P := by
  rw [Every, nodes, List.forall_mem_cons, forall_mem_nodesAll]

@[simp] theorem every_add (a b : Expr) :
    (a + b).Every P ↔ P (.operation .add) ∧ a.Every P ∧ b.Every P :=
  every_binary .add a b

@[simp] theorem every_sub (a b : Expr) :
    (a - b).Every P ↔ P (.operation .sub) ∧ a.Every P ∧ b.Every P :=
  every_binary .sub a b

@[simp] theorem every_mul (a b : Expr) :
    (a * b).Every P ↔ P (.operation .mul) ∧ a.Every P ∧ b.Every P :=
  every_binary .mul a b

@[simp] theorem every_div (a b : Expr) :
    (a / b).Every P ↔ P (.operation .div) ∧ a.Every P ∧ b.Every P :=
  every_binary .div a b

@[simp] theorem every_pow (a b : Expr) :
    (a ^ b).Every P ↔ P (.operation .pow) ∧ a.Every P ∧ b.Every P :=
  every_binary .pow a b

@[simp] theorem every_apply (f : Function) (u : Expr) :
    (apply f u).Every P ↔ P (.call f.name 1) ∧ u.Every P := by
  simp [apply]

@[simp] theorem every_ln (u : Expr) :
    u.ln.Every P ↔ P (.call "log" 2) ∧ u.Every P ∧ P (.const euler) := by
  simp [ln]

theorem Every.mono {Q : Node → Prop} {e : Expr} (hEvery : e.Every P)
    (hImp : ∀ node, P node → Q node) : e.Every Q :=
  fun node hNode => hImp node (hEvery node hNode)

end

end Expr

end Fluxion
