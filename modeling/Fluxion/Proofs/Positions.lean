import Fluxion.Proofs.Spelling

/-!
# Reading by positions

A list of items can also be read without ever building a list: by positions, a
first one and the one behind the last, between which the items to read stand.
An argument of a call starts behind a comma and stops at the next one, and the
scan for commas moves on by everything an item covers. Reaches may say
anything, so it is not clear that a scan led by them does not get behind the
end, or an argument stop in front of where it starts.

Here every part is taken with a check of its positions. No check ever fails,
whatever the priorities and reaches are, and what is read is the same.

## Main results

* `Item.argumentsOf_boundsOf` — the arguments of a call lie between the
  positions that the scan finds.
* `Expr.ofPositions?_eq` — no position is out of range in reading a list.
* `Expr.words_eq_items` — so the items are cut in range, and none of them is
  lost, doubled or moved.
-/

namespace Fluxion

/-! ## Checked positions -/

/-- What comes out where positions are checked: nothing at all if one is out of
range, else an outcome. -/
abbrev Checked : Type → Type :=
  ExceptT ParseError Option

namespace Checked

variable {α β γ : Type}

/-- A position was out of range. -/
def outOfRange : Checked α :=
  ExceptT.mk none

/-- The outcome, all positions being in range. -/
def inRange (outcome : Except ParseError α) : Checked α :=
  ExceptT.mk (some outcome)

/-- The part of a list from one position up to another, which have to be
positions of the list in this order. -/
def slice (xs : List α) (start stop : Nat) :
    Checked { part : List α // part.length = stop - start ∧ stop ≤ xs.length } :=
  if h : start ≤ stop ∧ stop ≤ xs.length then
    inRange (.ok ⟨(xs.take stop).drop start, by
      rw [List.length_drop, List.length_take, Nat.min_eq_left h.2]
      exact ⟨rfl, h.2⟩⟩)
  else outOfRange

theorem slice_eq {xs : List α} {start stop : Nat} (hStart : start ≤ stop)
    (hStop : stop ≤ xs.length) :
    slice xs start stop = inRange (.ok ⟨(xs.take stop).drop start, by
      rw [List.length_drop, List.length_take, Nat.min_eq_left hStop]
      exact ⟨rfl, hStop⟩⟩) :=
  dif_pos ⟨hStart, hStop⟩

theorem inRange_ok_bind (a : α) (next : α → Checked β) :
    (inRange (.ok a) >>= next) = next a := rfl

theorem inRange_bind (first : Except ParseError α) (next : α → Except ParseError β) :
    (inRange first >>= fun a => inRange (next a)) = inRange (first >>= next) := by
  cases first <;> rfl

theorem mapM_inRange {R : α → β → Prop} {as : List α} {bs : List β} {step : α → Checked γ}
    {outcome : β → Except ParseError γ} (hRelated : List.Forall₂ R as bs)
    (hStep : ∀ a b, b ∈ bs → R a b → step a = inRange (outcome b)) :
    as.mapM step = inRange (bs.mapM outcome) := by
  induction hRelated with
  | nil => rfl
  | @cons a b as bs hFirst _ ih =>
      have hRest := ih fun a b hMem => hStep a b (List.mem_cons_of_mem _ hMem)
      rw [List.mapM_cons, List.mapM_cons, hStep a b List.mem_cons_self hFirst, hRest,
        ← inRange_bind]
      congr 1
      funext c
      exact inRange_bind _ _

end Checked

namespace Item

/-! ## The positions of arguments -/

/-- Where an argument stands, and what it follows. -/
structure Bounds where
  follows : Span
  start : Nat
  stop : Nat

/-- The arguments by their positions, and the comma that separates nothing, if
the scan stopped at one. Items are looked at from `position` on, and `start` is
where the argument that is being passed through started. -/
def boundsFrom (separator : Int) (items : List Item) (follows : Span) (start position : Nat) :
    List Bounds × Option Span :=
  if h : position < items.length then
    let item := items[position]
    if item.token.kind = .comma then
      if item.priority = separator then
        let behind := boundsFrom separator items item.token.span (position + 1)
          (position + item.extent)
        (⟨follows, start, position⟩ :: behind.1, behind.2)
      else ([], some item.token.span)
    else boundsFrom separator items follows start (position + item.extent)
  else ([⟨follows, start, items.length⟩], none)
termination_by items.length - position
decreasing_by
  all_goals
    simp only [extent]
    omega

/-- The bounds of the arguments of a call. -/
def boundsOf (name : Item) (items : List Item) : List Bounds × Option Span :=
  if items.isEmpty then ([], none)
  else boundsFrom (name.priority + Token.nestingStep) items name.token.span 0 0

/-- The bounds are positions of the list, and the argument is what stands
between them. -/
structure Bounds.Hold (items : List Item) (bounds : Bounds) (argument : Argument) : Prop where
  start_le : bounds.start ≤ bounds.stop
  stop_le : bounds.stop ≤ items.length
  items_eq : (items.take bounds.stop).drop bounds.start = argument.items
  follows_eq : bounds.follows = argument.follows

/-- Items that are covered go to the argument that is being collected. -/
private theorem cutAt_skip (separator : Int) (skip : Nat) (follows : Span) (items : List Item) :
    Arguments.cutAt separator skip follows items =
      (items.take skip).foldr Arguments.consItem
        (Arguments.cutAt separator 0 follows (items.drop skip)) := by
  induction items generalizing skip with
  | nil => simp [Arguments.cutAt]
  | cons item rest ih =>
      cases skip with
      | zero => rfl
      | succ skip =>
          rw [Arguments.cutAt, ih skip]
          rfl

private theorem foldr_consItem_nil (front : List Item) (misplaced : Option Span) :
    front.foldr Arguments.consItem ⟨[], misplaced⟩ = ⟨[], misplaced⟩ := by
  induction front with
  | nil => rfl
  | cons item front ih =>
      rw [List.foldr_cons, ih]
      rfl

/-- What is left from a position on, if that is a position of the list. -/
private theorem drop_position {items : List Item} {position : Nat}
    (hPosition : position < items.length) :
    items.drop position = items[position] :: items.drop (position + 1) :=
  List.drop_eq_getElem_cons hPosition

private theorem drop_extent (items : List Item) (item : Item) (position : Nat) :
    items.drop (position + item.extent) = (items.drop (position + 1)).drop item.covered := by
  rw [List.drop_drop, extent, Nat.add_assoc]

/-- Up to the end of what an item covers there are the items in front of it,
the item and what it covers. -/
private theorem take_extent {items : List Item} {start position : Nat}
    (hStart : start ≤ position) (hPosition : position < items.length) :
    (items.take (position + items[position].extent)).drop start =
      (items.take position).drop start ++
        items[position] :: (items.drop (position + 1)).take items[position].covered := by
  have hLength : start ≤ (items.take position).length := by
    rw [List.length_take]
    omega
  rw [List.take_add, List.drop_append_of_le_length hLength, drop_position hPosition, extent,
    Nat.add_comm 1, List.take_succ_cons]

/-- **Arguments lie between their bounds.** The argument that is being passed
through consists of the items from `start` up to `position`. -/
theorem cuts_boundsFrom {separator : Int} {items : List Item} {follows : Span}
    {start position : Nat} (hStart : start ≤ position) (hLength : start ≤ items.length) :
    List.Forall₂ (Bounds.Hold items) (boundsFrom separator items follows start position).1
        (((items.take position).drop start).foldr Arguments.consItem
          (Arguments.cutAt separator 0 follows (items.drop position))).arguments ∧
      (boundsFrom separator items follows start position).2 =
        (((items.take position).drop start).foldr Arguments.consItem
          (Arguments.cutAt separator 0 follows (items.drop position))).misplaced := by
  induction follows, start, position using boundsFrom.induct separator items with
  | case1 follows start position hPosition item hKind hPriority ih =>
      -- the next argument starts behind the comma, with what the comma covers
      have hBehind : (items.take (position + item.extent)).drop (position + 1) =
          (items.drop (position + 1)).take item.covered := by
        rw [List.drop_take, extent, Nat.add_comm 1, ← Nat.add_assoc, Nat.add_right_comm,
          Nat.add_sub_cancel_left]
      have hRest := ih (by rw [extent]; omega) hPosition
      rw [hBehind, drop_extent, ← cutAt_skip] at hRest
      rw [boundsFrom, dif_pos hPosition, if_pos hKind, if_pos hPriority, drop_position hPosition,
        Arguments.cutAt, if_pos hKind, if_pos hPriority, Arguments.foldr_consItem,
        List.append_nil]
      exact ⟨.cons ⟨hStart, Nat.le_of_lt hPosition, rfl, rfl⟩ hRest.1, hRest.2⟩
  | case2 follows start position hPosition item hKind hPriority =>
      rw [boundsFrom, dif_pos hPosition, if_pos hKind, if_neg hPriority, drop_position hPosition,
        Arguments.cutAt, if_pos hKind, if_neg hPriority, foldr_consItem_nil]
      exact ⟨.nil, rfl⟩
  | case3 follows start position hPosition item hKind ih =>
      have hRest := ih (by rw [extent]; omega) hLength
      rw [take_extent hStart hPosition, drop_extent, List.foldr_append, List.foldr_cons,
        ← cutAt_skip] at hRest
      rw [boundsFrom, dif_pos hPosition, if_neg hKind, drop_position hPosition, Arguments.cutAt,
        if_neg hKind]
      exact hRest
  | case4 follows start position hPosition =>
      have hEnd : items.length ≤ position := Nat.le_of_not_lt hPosition
      rw [boundsFrom, dif_neg hPosition, List.drop_eq_nil_of_le hEnd, List.take_of_length_le hEnd]
      have hCut : Arguments.cutAt separator 0 follows [] =
          (⟨[], none⟩ : Arguments).consArgument ⟨follows, []⟩ := rfl
      rw [hCut, Arguments.foldr_consItem, List.append_nil]
      exact ⟨.cons ⟨hLength, Nat.le_refl _, by rw [List.take_length], rfl⟩ .nil, rfl⟩

/-- **The arguments of a call lie between the positions that the scan finds.** -/
theorem argumentsOf_boundsOf (name : Item) (items : List Item) :
    List.Forall₂ (Bounds.Hold items) (boundsOf name items).1 (argumentsOf name items).arguments ∧
      (boundsOf name items).2 = (argumentsOf name items).misplaced := by
  unfold boundsOf argumentsOf
  split
  · exact ⟨.nil, rfl⟩
  · exact cuts_boundsFrom (Nat.le_refl 0) (Nat.zero_le _)

end Item

/-! ## Reading with checks -/

namespace Expr

open Checked

/-- The expression that a list of items stands for, read by positions. -/
def ofPositions? (follows : Span) (items : List Item) : Checked Expr :=
  match items with
  | [] => inRange (.error ⟨follows, .emptyExpression⟩)
  | first :: rest =>
    if first.reach = some rest.length then do
      let bounds := Item.boundsOf first rest
      let arguments ← bounds.1.mapM fun b => do
        let part ← slice rest b.start b.stop
        ofPositions? b.follows part.1
      match bounds.2 with
      | some comma => inRange (.error ⟨comma, .misplacedComma⟩)
      | none => inRange (.ok (call first.token.text arguments))
    else if rest.isEmpty then inRange (ofToken? first.token)
    else do
      inRange (Item.checkTopLevel (first :: rest))
      let position := (Item.weakest first rest).1
      match (first :: rest)[position]? with
      | none => outOfRange
      | some pivot =>
        match pivot.token.operator? with
        | none => inRange (.error ⟨pivot.token.span, .expectedOperator pivot.token.text⟩)
        | some op => do
          let front ← slice (first :: rest) 0 position
          let left ← ofPositions? pivot.token.span front.1
          let back ← slice (first :: rest) (position + 1) (first :: rest).length
          let right ← ofPositions? pivot.token.span back.1
          inRange (.ok (binary op left right))
termination_by items.length
decreasing_by
  · rw [part.2.1, List.length_cons]
    exact Nat.lt_succ_of_le (Nat.le_trans (Nat.sub_le _ _) part.2.2)
  · have hPosition := Item.weakest_lt first rest
    rw [front.2.1]
    omega
  · rw [back.2.1, List.length_cons]
    omega

theorem ofPositions?_eq (follows : Span) (items : List Item) :
    ofPositions? follows items = inRange (ofItems? follows items) := by
  induction hLength : items.length using Nat.strongRecOn generalizing items follows with
  | _ length ih =>
  subst hLength
  cases items with
  | nil => rw [ofPositions?, ofItems?_nil]
  | cons first rest =>
      by_cases hReach : first.reach = some rest.length
      · have hArguments : (Item.boundsOf first rest).1.mapM (fun b =>
            slice rest b.start b.stop >>= fun part => ofPositions? b.follows part.1) =
            inRange ((Item.argumentsOf first rest).arguments.mapM fun a =>
              ofItems? a.follows a.items) := by
          refine mapM_inRange (Item.argumentsOf_boundsOf first rest).1 fun b a hMem hHold => ?_
          have hShorter := Item.length_le_of_mem_argumentsOf hMem
          simp only [slice_eq hHold.start_le hHold.stop_le, inRange_ok_bind]
          rw [hHold.items_eq, hHold.follows_eq]
          exact ih _ (Nat.lt_succ_of_le hShorter) _ _ rfl
        rw [ofPositions?, if_pos hReach, ofItems?_call follows hReach]
        simp only [hArguments, (Item.argumentsOf_boundsOf first rest).2]
        rw [← inRange_bind]
        congr 1
        funext arguments
        cases (Item.argumentsOf first rest).misplaced <;> rfl
      · by_cases hSingle : rest = []
        · subst hSingle
          rw [ofPositions?, if_neg hReach, ofItems?_operand follows (by simpa using hReach)]
          rfl
        · rw [ofPositions?, if_neg hReach, if_neg (by simpa using hSingle),
            ofItems?_operation follows hReach hSingle, ← inRange_bind]
          congr 1
          funext standing
          have hInside := Item.weakest_lt first rest
          have hFront : ((first :: rest).take (Item.weakest first rest).1).length <
              (first :: rest).length := by
            rw [List.length_take]
            omega
          have hBack : ((first :: rest).drop ((Item.weakest first rest).1 + 1)).length <
              (first :: rest).length := by
            rw [List.length_drop]
            omega
          simp only [Item.getElem?_weakest]
          cases (Item.weakest first rest).2.token.operator? with
          | none => rfl
          | some op =>
              simp only [slice_eq (Nat.zero_le _) (Nat.le_of_lt hInside),
                slice_eq hInside (Nat.le_refl _), inRange_ok_bind, List.drop_zero,
                List.take_length, ih _ hFront _ _ rfl, ih _ hBack _ _ rfl]
              simp only [← inRange_bind]

/-- **Nothing is lost, doubled or moved.** Whatever the priorities and the
reaches are, every position at which the items are cut is in range; and if the
items can be read, and no comma is called, they stand one by one for the words
of the expression, commas for separators and all others for its nodes in
order. -/
theorem words_eq_items (follows : Span) (items : List Item) :
    ofPositions? follows items = inRange (ofItems? follows items) ∧
      ∀ e, ofItems? follows items = .ok e →
        (∀ item ∈ items, item.token.kind = .comma → item.reach = none) →
          List.Forall₂ (fun word item => word.IsSaidBy item ∧
              (word = .separator ↔ item.token.kind = .comma)) e.spelling items ∧
            List.Forall₂ (fun n item => n.IsSaidBy item) e.inOrder
              (items.filter (·.token.kind ≠ .comma)) ∧
            e.size = (items.filter (·.token.kind ≠ .comma)).length := by
  refine ⟨ofPositions?_eq follows items, fun e hRead hBare => ?_⟩
  exact ⟨(spells_of_ofItems? hRead).separators hBare, inOrder_of_ofItems? hBare hRead⟩

/-- In these items every reach but that of `log` is wrong: that of the operator
goes beyond the end, and `y` is called without having a parenthesis. -/
def mistagged : List Item :=
  [⟨⟨.name, ['x'], ⟨0, 1⟩⟩, 1000, none⟩, ⟨⟨.operator, ['+'], ⟨1, 2⟩⟩, 1, some 9⟩,
    ⟨⟨.name, ['l', 'o', 'g'], ⟨2, 5⟩⟩, 1000, some 3⟩, ⟨⟨.name, ['y'], ⟨6, 7⟩⟩, 2050, some 0⟩,
    ⟨⟨.comma, [','], ⟨7, 8⟩⟩, 1050, none⟩, ⟨⟨.name, ['z'], ⟨8, 9⟩⟩, 2050, none⟩]

def mistaggedRead : Expr :=
  binary .add (var "x") (call "log" [call "y" [], var "z"])

theorem words_eq_items_mistagged :
    ofItems? ⟨9, 9⟩ mistagged = .ok mistaggedRead ∧
      List.Forall₂ (fun n item => n.IsSaidBy item) mistaggedRead.inOrder
        (mistagged.filter (·.token.kind ≠ .comma)) ∧ mistaggedRead.size = 5 := by
  have hRead : ofItems? ⟨9, 9⟩ mistagged = .ok mistaggedRead := by cbv
  have hBare : ∀ item ∈ mistagged, item.token.kind = .comma → item.reach = none := by decide
  obtain ⟨-, hNodes, hSize⟩ := (words_eq_items ⟨9, 9⟩ mistagged).2 mistaggedRead hRead hBare
  exact ⟨hRead, hNodes, hSize⟩

end Expr

end Fluxion
