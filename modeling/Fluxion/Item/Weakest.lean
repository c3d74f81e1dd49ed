import Fluxion.Item.Basic
import Fluxion.ParseError

/-!
# The weakest item

An expression is taken apart at the item that binds most weakly. Items that
are arguments of a call take no part in the comparison: the walk over the top
level jumps from an item over everything it covers.

## Main results

* `getElem?_of_mem_topLevel`: the items of the top level are items of the
  list, at the positions they are given.
* `weakest_lt`: the weakest item has a position inside the list, so both sides
  of it are shorter than the whole.
-/

namespace Fluxion.Item

/-! ## The top level -/

/-- The items outside the arguments of every call, with their positions,
when the first `skip` ones are arguments and the list starts at `position`. -/
def topLevelFrom (skip position : Nat) : List Item → List (Nat × Item)
  | [] => []
  | item :: rest =>
    match skip with
    | 0 => (position, item) :: topLevelFrom item.covered (position + 1) rest
    | skip + 1 => topLevelFrom skip (position + 1) rest

/-- The items outside the arguments of every call, with their positions. -/
def topLevel (items : List Item) : List (Nat × Item) :=
  topLevelFrom 0 0 items

theorem getElem?_of_mem_topLevelFrom {items : List Item} {skip position index : Nat} {item : Item}
    (h : (index, item) ∈ topLevelFrom skip position items) :
    position ≤ index ∧ items[index - position]? = some item := by
  induction items generalizing skip position with
  | nil => simp [topLevelFrom] at h
  | cons first rest ih =>
    have later {skip : Nat} (h : (index, item) ∈ topLevelFrom skip (position + 1) rest) :
        position ≤ index ∧ (first :: rest)[index - position]? = some item := by
      obtain ⟨hle, hget⟩ := ih h
      refine ⟨by omega, ?_⟩
      rw [show index - position = index - (position + 1) + 1 by omega, List.getElem?_cons_succ]
      exact hget
    cases skip with
    | zero =>
      simp only [topLevelFrom, List.mem_cons, Prod.mk.injEq] at h
      rcases h with ⟨rfl, rfl⟩ | h
      · simp
      · exact later h
    | succ skip => exact later h

/-- An item of the top level stands in the list where it is said to. -/
theorem getElem?_of_mem_topLevel {items : List Item} {position : Nat} {item : Item}
    (h : (position, item) ∈ topLevel items) : items[position]? = some item :=
  (getElem?_of_mem_topLevelFrom h).2

/-! ## Items that cannot stand there -/

/-- Refuses a comma, which separates no arguments on the top level, and a run
of operator characters that is no operator. -/
def checkStanding (item : Item) : Except ParseError Unit :=
  match item.token.kind with
  | .comma => .error ⟨item.token.span, .misplacedComma⟩
  | .operator =>
    if item.token.operator?.isSome then .ok ()
    else .error ⟨item.token.span, .invalidOperator item.token.text⟩
  | .number | .name | .openParen | .closeParen => .ok ()

/-- Refuses the first item of the top level that cannot stand there. -/
def checkTopLevel (items : List Item) : Except ParseError Unit :=
  (topLevel items).forM fun (_, item) => item.checkStanding

/-! ## Comparing items -/

/-- Whether an item binds more weakly than one before it. Of equally strong
ones the later does if it groups to the left, so that `a-b-c` is taken apart
at its second operator; a power and everything that is no operator leave the
earlier one in place. -/
def weakerThan (later earlier : Item) : Bool :=
  if later.priority = earlier.priority then
    later.token.operator?.any (·.associativity = .left)
  else later.priority < earlier.priority

/-- The weaker of two placed items, the first standing before the second. -/
def weaker (earlier later : Nat × Item) : Nat × Item :=
  if later.2.weakerThan earlier.2 then later else earlier

/-- The weakest item of a list, with its position; the list is given as its
first item and the others. -/
def weakest (first : Item) (rest : List Item) : Nat × Item :=
  (topLevelFrom first.covered 1 rest).foldl weaker (0, first)

private theorem foldl_weaker_mem (start : Nat × Item) (placed : List (Nat × Item)) :
    placed.foldl weaker start ∈ start :: placed := by
  induction placed generalizing start with
  | nil => simp
  | cons next placed ih =>
    have h := ih (weaker start next)
    have hWeaker : weaker start next = start ∨ weaker start next = next := by
      unfold weaker; split <;> simp
    simp only [List.foldl_cons, List.mem_cons] at h ⊢
    rcases hWeaker with hw | hw <;> rw [hw] at h ⊢ <;> grind

/-- The weakest item is an item of the top level. -/
theorem weakest_mem (first : Item) (rest : List Item) :
    weakest first rest ∈ topLevel (first :: rest) :=
  foldl_weaker_mem (0, first) _

/-- The weakest item stands in the list where it is said to. -/
theorem getElem?_weakest (first : Item) (rest : List Item) :
    (first :: rest)[(weakest first rest).1]? = some (weakest first rest).2 :=
  getElem?_of_mem_topLevel (weakest_mem first rest)

/-- **The weakest item lies inside the list.** -/
theorem weakest_lt (first : Item) (rest : List Item) :
    (weakest first rest).1 < (first :: rest).length :=
  (List.getElem?_eq_some_iff.1 (getElem?_weakest first rest)).1

end Fluxion.Item
