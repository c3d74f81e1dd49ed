import Fluxion.Proofs.Alternation
import Fluxion.Proofs.Nodes

/-!
# What is read spells out the items

Wherever a list of items is taken apart, what is taken out of it is an operator,
the name of a call or a comma, and the rest goes on to be read. So an
expression, said from left to right with a word for every operator, every call
and every separation of two arguments, says the items one after the other:
none is lost, none is said twice, and none changes its place.

Nothing is asked of the items for this. Priorities decide at which operator a
list is taken apart and reaches what is an argument, and both may be arbitrary:
a reach that goes beyond the list, or into the middle of another call, changes
which expression is read, if any, but not what it spells.

## Main results

* `Expr.spells_of_ofItems?` — the items, one by one, are what the expression
  spells.
* `Expr.inOrder_of_ofItems?` — without the commas they are its nodes in order.
-/

namespace Fluxion

/-! ## Words -/

/-- A word of an expression said from left to right. -/
inductive Word where
  | node (n : Node)
  /-- What stands between two arguments. -/
  | separator

/-- The node that a word is for. -/
def Word.node? : Word → Option Node
  | node n => some n
  | separator => none

namespace Expr

mutual

/-- The words of an expression: an operator stands between its operands, a call
in front of its arguments, and a separator between any two of these. -/
def spelling : Expr → List Word
  | const value => [.node (.const value)]
  | var name => [.node (.var name)]
  | binary op left right => left.spelling ++ .node (.operation op) :: right.spelling
  | call function arguments =>
    .node (.call function arguments.length) :: spellingAll arguments

/-- The words of arguments, with a separator between any two. -/
def spellingAll : List Expr → List Word
  | [] => []
  | [e] => e.spelling
  | e :: rest => e.spelling ++ .separator :: spellingAll rest

end

/-- The nodes in the order in which they are said. -/
def inOrder (e : Expr) : List Node :=
  e.spelling.filterMap Word.node?

theorem spellingAll_cons_cons (e next : Expr) (rest : List Expr) :
    spellingAll (e :: next :: rest) = e.spelling ++ .separator :: spellingAll (next :: rest) := by
  rw [spellingAll]
  simp

mutual

theorem length_inOrder (e : Expr) : e.inOrder.length = e.size := by
  match e with
  | const value => rfl
  | var name => rfl
  | binary op left right =>
      have hLeft := length_inOrder left
      have hRight := length_inOrder right
      rw [inOrder] at hLeft hRight
      rw [inOrder, spelling, List.filterMap_append, List.filterMap_cons, List.length_append, size]
      simp only [Word.node?, List.length_cons]
      omega
  | call function arguments =>
      rw [inOrder, spelling, List.filterMap_cons, size, ← length_inOrderAll arguments]
      simp only [Word.node?, List.length_cons]
      omega

theorem length_inOrderAll (es : List Expr) :
    ((spellingAll es).filterMap Word.node?).length = sizes es := by
  match es with
  | [] => rfl
  | [e] =>
      rw [spellingAll, sizes, sizes]
      exact length_inOrder e
  | e :: next :: rest =>
      have hFirst := length_inOrder e
      rw [inOrder] at hFirst
      rw [spellingAll_cons_cons, List.filterMap_append, List.filterMap_cons, List.length_append,
        sizes, ← length_inOrderAll (next :: rest)]
      simp only [Word.node?]
      omega

end

end Expr

/-! ## Items that stand for words -/

/-- The item stands for the node: a number or the name of a constant for its
value, another name for a variable, an operator for the operation, and anything
that is called for a call of that name. -/
def Node.IsSaidBy (item : Item) : Node → Prop
  | const value =>
    (item.token.kind = .number ∧ Number.literal? item.token.lexeme = some value) ∨
      (item.token.kind = .name ∧ constant? item.token.text = some value)
  | var name =>
    item.token.kind = .name ∧ constant? item.token.text = none ∧ item.token.text = name
  | operation op => item.token.kind = .operator ∧ item.token.lexeme = [op.symbol]
  | call function _ => item.reach.isSome ∧ item.token.text = function

/-- The item stands for the word; for a separator that is a comma. -/
def Word.IsSaidBy (item : Item) : Word → Prop
  | node n => n.IsSaidBy item
  | separator => item.token.kind = .comma

/-- The items stand for the words, one for each. -/
def Says (words : List Word) (items : List Item) : Prop :=
  List.Forall₂ (fun word item => word.IsSaidBy item) words items

namespace Item

/-- Only what is called can be a comma and stand for a node. -/
theorem kind_ne_comma_of_isSaidBy {item : Item} {n : Node} (hSaid : n.IsSaidBy item)
    (hBare : item.token.kind = .comma → item.reach = none) : item.token.kind ≠ .comma := by
  intro hComma
  cases n with
  | const value =>
      rcases hSaid with ⟨hKind, -⟩ | ⟨hKind, -⟩ <;> simp [hComma] at hKind
  | var name | operation op =>
      have hKind := hSaid.1
      simp [hComma] at hKind
  | call function given =>
      have hCalled := hSaid.1
      simp [hBare hComma] at hCalled

end Item

/-- Only separators are said by commas. -/
theorem Says.separators {words : List Word} {items : List Item} (hSays : Says words items)
    (hBare : ∀ item ∈ items, item.token.kind = .comma → item.reach = none) :
    List.Forall₂ (fun word item => word.IsSaidBy item ∧
      (word = .separator ↔ item.token.kind = .comma)) words items := by
  induction hSays with
  | nil => exact .nil
  | @cons word item words items hSaid _ ih =>
      obtain ⟨hFirst, hRest⟩ := List.forall_mem_cons.1 hBare
      refine .cons ⟨hSaid, ?_⟩ (ih hRest)
      cases word with
      | separator => exact iff_of_true rfl hSaid
      | node n => simpa using Item.kind_ne_comma_of_isSaidBy hSaid hFirst

/-- Without the commas the items stand for the nodes. -/
theorem Says.forall₂_nodes {words : List Word} {items : List Item} (hSays : Says words items)
    (hBare : ∀ item ∈ items, item.token.kind = .comma → item.reach = none) :
    List.Forall₂ (fun n item => n.IsSaidBy item) (words.filterMap Word.node?)
      (items.filter (·.token.kind ≠ .comma)) := by
  induction hSays with
  | nil => exact .nil
  | @cons word item words items hSaid _ ih =>
      obtain ⟨hFirst, hRest⟩ := List.forall_mem_cons.1 hBare
      cases word with
      | separator =>
          have hComma : item.token.kind = .comma := hSaid
          rw [List.filterMap_cons, List.filter_cons_of_neg (by simp [hComma])]
          exact ih hRest
      | node n =>
          have hPlain := Item.kind_ne_comma_of_isSaidBy hSaid hFirst
          rw [List.filterMap_cons, List.filter_cons_of_pos (by simp [hPlain])]
          exact .cons hSaid (ih hRest)

namespace Expr

/-! ## Reading -/

private theorem says_of_ofToken? {item : Item} {e : Expr} (hRead : ofToken? item.token = .ok e) :
    Says e.spelling [item] := by
  unfold ofToken? at hRead
  split at hRead
  · next hKind =>
      split at hRead
      · next value hLiteral =>
          cases hRead
          exact .cons (.inl ⟨hKind, hLiteral⟩) .nil
      · cases hRead
  · next hKind =>
      split at hRead
      · next value hConstant =>
          cases hRead
          exact .cons (.inr ⟨hKind, hConstant⟩) .nil
      · next hNone =>
          cases hRead
          exact .cons ⟨hKind, hNone, rfl⟩ .nil
  · cases hRead
  · split at hRead <;> cases hRead
  · cases hRead
  · cases hRead

/-- Arguments cut at commas: their words, with a separator for each comma, are
those of the whole. -/
private theorem says_of_cutAt {separator : Int} {skip : Nat} {follows : Span} {items : List Item}
    {cut : List Item.Argument} {es : List Expr}
    (hCut : Item.Arguments.cutAt separator skip follows items = ⟨cut, none⟩)
    (hSays : List.Forall₂ (fun (a : Item.Argument) (e : Expr) => Says e.spelling a.items) cut es) :
    Says (spellingAll es) items := by
  induction hSays generalizing skip follows items with
  | nil => cases Item.firstCut_cutAt hCut
  | @cons first e others es hFirst hOthers ih =>
      cases Item.firstCut_cutAt hCut with
      | last hItems =>
          cases hOthers
          rw [spellingAll, ← hItems]
          exact hFirst
      | @more _ _ comma back hItems hKind _ _ hBack =>
          -- behind a comma there is an argument, even if it has no items
          have hRest := ih hBack
          cases hOthers with
          | nil => cases Item.firstCut_cutAt hBack
          | @cons second next others es hSecond hMore =>
              rw [spellingAll_cons_cons, hItems]
              exact List.rel_append hFirst (.cons hKind hRest)

private theorem says_of_argumentsOf {name : Item} {items : List Item} {es : List Expr}
    (hMisplaced : (Item.argumentsOf name items).misplaced = none)
    (hSays : List.Forall₂ (fun (a : Item.Argument) (e : Expr) => Says e.spelling a.items)
      (Item.argumentsOf name items).arguments es) :
    Says (spellingAll es) items := by
  by_cases hNil : items = []
  · subst hNil
    cases hSays
    exact .nil
  · exact says_of_cutAt (Item.cutAt_eq_argumentsOf hNil hMisplaced) hSays

/-- **The items, one by one, are what the expression spells.** -/
theorem spells_of_ofItems? {items : List Item} {follows : Span} {e : Expr}
    (hRead : ofItems? follows items = .ok e) : Says e.spelling items := by
  refine Item.reading_induction (motive := fun items e => Says e.spelling items)
    ?call ?operand ?operation hRead
  case call =>
    intro first rest es hReach hMisplaced hArguments
    have hName : Word.IsSaidBy first (.node (.call first.token.text es.length)) :=
      ⟨by rw [hReach]; rfl, rfl⟩
    rw [spelling]
    exact .cons hName (says_of_argumentsOf hMisplaced hArguments)
  case operand =>
    intro item e _ hRead
    exact says_of_ofToken? hRead
  case operation =>
    intro items front pivot back op left right hParts hOp hLeft hRight
    have hPivot : Word.IsSaidBy pivot (.node (.operation op)) :=
      ⟨Token.kind_of_operator? hOp, Token.lexeme_of_operator? hOp⟩
    rw [hParts.eq, spelling]
    exact List.rel_append hLeft (.cons hPivot hRight)

/-- **Without the commas the items are the nodes in order**, if no comma is
called; so there are as many as the expression has nodes. -/
theorem inOrder_of_ofItems? {items : List Item} {follows : Span} {e : Expr}
    (hBare : ∀ item ∈ items, item.token.kind = .comma → item.reach = none)
    (hRead : ofItems? follows items = .ok e) :
    List.Forall₂ (fun n item => n.IsSaidBy item) e.inOrder
        (items.filter (·.token.kind ≠ .comma)) ∧
      e.size = (items.filter (·.token.kind ≠ .comma)).length := by
  have hNodes := (spells_of_ofItems? hRead).forall₂_nodes hBare
  exact ⟨hNodes, by rw [← length_inOrder]; exact hNodes.length_eq⟩

end Expr

end Fluxion
