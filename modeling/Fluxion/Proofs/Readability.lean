import Fluxion.Proofs.Alternation
import Fluxion.Proofs.Provenance

/-!
# Alternations can be read

Items that can be read alternate. The converse holds too, as long as the
priorities keep operators apart from everything else. The weakest item of an
alternation of several items is then one of its operators, and both sides of
an operator of the top level alternate again. So the priorities decide where a
list is taken apart, but never whether it can be.

## Main results

* `Item.cutAt_of_alternates` — an alternation with commas is cut into arguments
  that alternate.
* `Item.exists_ofItems?_iff` — the items that can be read are those that
  alternate.
-/

namespace Fluxion.Item

open Token

/-! ## Items of sources -/

/-- Operators have lower priorities than everything else, and only names are
called. -/
structure Ranked (item : Item) : Prop where
  operator : item.token.operator?.isSome → item.priority < operandPriority
  operand : item.token.operator? = none → operandPriority ≤ item.priority
  called : item.reach.isSome → item.token.kind = .name

/-! ## Cutting an alternation at its commas -/

/-- The arguments of an alternation that wants `p` next: no comma is misplaced
and all of them alternate, the first one from where the alternation stands. -/
def Cuts (p : Phase) (cut : Arguments) : Prop :=
  ∃ first others, cut = ⟨first :: others, none⟩ ∧ Alternates none p first.items .operator ∧
    ∀ a ∈ others, Alternates none .operand a.items .operator

private theorem Cuts.foldr {p q : Phase} {front : List Item} {cut : Arguments}
    (hCut : Cuts q cut)
    (hFront : ∀ {items : List Item}, Alternates none q items .operator →
      Alternates none p (front ++ items) .operator) :
    Cuts p (front.foldr Arguments.consItem cut) := by
  obtain ⟨⟨follows, items⟩, others, rfl, hFirst, hOthers⟩ := hCut
  refine ⟨⟨follows, front ++ items⟩, others, ?_, hFront hFirst, hOthers⟩
  exact Arguments.foldr_consItem front follows items ⟨others, none⟩

private theorem cutAt_plain {item : Item} (hKind : item.token.kind ≠ .comma) (separator : Int)
    (follows : Span) (rest : List Item) :
    Arguments.cutAt separator 0 follows (item :: rest) =
      [item].foldr Arguments.consItem (Arguments.cutAt separator item.covered follows rest) := by
  rw [Arguments.cutAt, if_neg hKind]
  rfl

private theorem cutAt_call {item : Item} {inside : List Item}
    (hReach : item.reach = some inside.length) (hKind : item.token.kind = .name) (separator : Int)
    (follows : Span) (rest : List Item) :
    Arguments.cutAt separator 0 follows (item :: (inside ++ rest)) =
      (item :: inside).foldr Arguments.consItem (Arguments.cutAt separator 0 follows rest) := by
  have hCovered : item.covered = inside.length := by rw [covered, hReach, Option.getD_some]
  have hInside : ∀ i ∈ heads inside.length inside, i.token.kind ≠ .comma := by
    rw [heads_of_length_le (Nat.le_refl _)]
    simp
  rw [cutAt_plain (by simp [hKind]), hCovered, Arguments.cutAt_append hInside,
    overhang_of_length_le (Nat.le_refl _), Nat.sub_self]
  rfl

/-- **An alternation with commas is cut into arguments that alternate.** -/
theorem cutAt_of_alternates {separator : Int} {p : Phase} {items : List Item}
    (hItems : Alternates (some separator) p items .operator) (hRanked : ∀ i ∈ items, i.Ranked)
    (follows : Span) : Cuts p (Arguments.cutAt separator 0 follows items) := by
  generalize hSome : some separator = s at hItems
  generalize hEnd : Phase.operator = q at hItems
  induction hItems generalizing follows with
  | nil =>
      subst hEnd
      exact ⟨⟨follows, []⟩, [], rfl, .nil, by simp⟩
  | @operand _ item rest _ hReach hValue hRest ih =>
      have hKind : item.token.kind ≠ .comma := by
        rcases kind_of_exists_ofToken? hValue with hKind | hKind <;> simp [hKind]
      rw [cutAt_plain hKind, covered, hReach, Option.getD_none]
      have hTail := ih (fun i hi => hRanked i (List.mem_cons_of_mem _ hi)) follows hSome hEnd
      exact hTail.foldr fun hItems => .operand hReach hValue hItems
  | @call _ item inside rest _ hReach hInside hRest _ ih =>
      rw [List.forall_mem_cons, List.forall_mem_append] at hRanked
      have hKind := hRanked.1.called (by rw [hReach]; rfl)
      rw [cutAt_call hReach hKind]
      have hTail := ih hRanked.2.2 follows hSome hEnd
      exact hTail.foldr fun hItems => .call hReach hInside hItems
  | @operator _ item rest _ hReach hOp hRest ih =>
      have hKind : item.token.kind ≠ .comma := by
        obtain ⟨op, hOp⟩ := Option.isSome_iff_exists.1 hOp
        simp [kind_of_operator? hOp]
      rw [cutAt_plain hKind, covered, hReach, Option.getD_none]
      have hTail := ih (fun i hi => hRanked i (List.mem_cons_of_mem _ hi)) follows hSome hEnd
      exact hTail.foldr fun hItems => .operator hReach hOp hItems
  | @comma item rest _ hReach hKind hRest ih =>
      obtain rfl : separator = item.priority := Option.some.inj hSome
      obtain ⟨first, others, hCut, hFirst, hOthers⟩ :=
        ih (fun i hi => hRanked i (List.mem_cons_of_mem _ hi)) item.token.span rfl hEnd
      rw [Arguments.cutAt, if_pos hKind, if_pos rfl, covered, hReach, Option.getD_none, hCut]
      subst hEnd
      exact ⟨⟨follows, []⟩, first :: others, rfl, .nil, List.forall_mem_cons.2 ⟨hFirst, hOthers⟩⟩

/-! ## Taking an alternation apart -/

/-- The top level behind a call is that of what follows everything it
covers. -/
private theorem heads_call {item : Item} {inside : List Item}
    (hReach : item.reach = some inside.length) (rest : List Item) :
    heads 0 (item :: (inside ++ rest)) = item :: heads 0 rest := by
  rw [heads, covered, hReach, Option.getD_some, heads_append,
    heads_of_length_le (Nat.le_refl _), overhang_of_length_le (Nat.le_refl _), Nat.sub_self,
    List.nil_append]

private theorem heads_single {item : Item} (hReach : item.reach = none) (rest : List Item) :
    heads 0 (item :: rest) = item :: heads 0 rest := by
  rw [heads, covered, hReach, Option.getD_none]

private theorem checkStanding_of_operator {item : Item} (hOp : item.token.operator?.isSome) :
    item.checkStanding = .ok () := by
  obtain ⟨op, hOperator⟩ := Option.isSome_iff_exists.1 hOp
  simp [checkStanding, kind_of_operator? hOperator, hOp]

/-- Everything on the top level of an alternation without commas may stand
there. -/
private theorem standing_of_alternates {p q : Phase} {items : List Item}
    (hRanked : ∀ i ∈ items, i.Ranked) (hItems : Alternates none p items q) :
    ∀ item ∈ heads 0 items, item.checkStanding = .ok () := by
  generalize hNone : (none : Option Int) = s at hItems
  induction hItems with
  | nil => simp [heads]
  | operand hReach hValue _ ih =>
      rw [List.forall_mem_cons] at hRanked
      rw [heads_single hReach, List.forall_mem_cons]
      exact ⟨checkStanding_of_kind (kind_of_exists_ofToken? hValue), ih hRanked.2 hNone⟩
  | call hReach _ _ _ ih =>
      rw [List.forall_mem_cons, List.forall_mem_append] at hRanked
      have hKind := hRanked.1.called (by rw [hReach]; rfl)
      rw [heads_call hReach, List.forall_mem_cons]
      exact ⟨checkStanding_of_kind (.inr hKind), ih hRanked.2.2 hNone⟩
  | operator hReach hOp _ ih =>
      rw [List.forall_mem_cons] at hRanked
      rw [heads_single hReach, List.forall_mem_cons]
      exact ⟨checkStanding_of_operator hOp, ih hRanked.2 hNone⟩
  | comma => cases hNone

/-- Where an operator is wanted next and something follows, it is one. -/
private theorem exists_operator_of_cons {item : Item} {rest : List Item}
    (hItems : Alternates none .operator (item :: rest) .operator) :
    ∃ pivot ∈ heads 0 (item :: rest), pivot.token.operator?.isSome := by
  cases hItems with
  | operator _ hOp => exact ⟨item, by simp [heads], hOp⟩

/-- An alternation of more than one operand has an operator on its top
level. -/
private theorem exists_operator {first : Item} {rest : List Item}
    (hItems : Alternates none .operand (first :: rest) .operator)
    (hReach : first.reach ≠ some rest.length) (hRest : rest ≠ []) :
    ∃ pivot ∈ heads 0 (first :: rest), pivot.token.operator?.isSome := by
  generalize hEq : first :: rest = items at hItems
  cases hItems with
  | operand hNone _ hTail =>
      cases hEq
      obtain ⟨next, others, rfl⟩ := List.exists_cons_of_ne_nil hRest
      obtain ⟨pivot, hMem, hOp⟩ := exists_operator_of_cons hTail
      rw [heads_single hNone]
      exact ⟨pivot, List.mem_cons_of_mem _ hMem, hOp⟩
  | @call _ _ inside behind _ hSome _ hTail =>
      cases hEq
      cases behind with
      | nil =>
          rw [List.append_nil] at hReach
          exact absurd hSome hReach
      | cons next others =>
          obtain ⟨pivot, hMem, hOp⟩ := exists_operator_of_cons hTail
          rw [heads_call hSome]
          exact ⟨pivot, List.mem_cons_of_mem _ hMem, hOp⟩

/-- **The weakest item of an alternation is an operator**, and both sides of it
alternate. -/
private theorem exists_pivot {first : Item} {rest : List Item}
    (hRanked : ∀ i ∈ first :: rest, i.Ranked)
    (hItems : Alternates none .operand (first :: rest) .operator)
    (hReach : first.reach ≠ some rest.length) (hRest : rest ≠ []) (follows : Span) :
    ∃ front pivot back op, first :: rest = front ++ pivot :: back ∧
      Alternates none .operand front .operator ∧ Alternates none .operand back .operator ∧
      Expr.ofItems? follows (first :: rest) =
        Expr.ofItems? pivot.token.span front >>= fun left =>
          Expr.ofItems? pivot.token.span back >>= fun right =>
            .ok (.binary op left right) := by
  obtain ⟨front, pivot, back, hParts, -, hTaken⟩ := exists_of_weakest hReach hRest follows
  obtain ⟨other, hOther, hOtherOp⟩ := exists_operator hItems hReach hRest
  have hMem : pivot ∈ first :: rest := by simp [hParts.eq]
  have hLow : pivot.priority < operandPriority := by
    have hLe := hParts.priority_le other hOther
    have hLt := (hRanked other (mem_of_mem_heads hOther)).operator hOtherOp
    omega
  have hOp : pivot.token.operator?.isSome := by
    by_contra hNone
    have hHigh := (hRanked pivot hMem).operand (by simpa using hNone)
    omega
  obtain ⟨op, hOperator⟩ := Option.isSome_iff_exists.1 hOp
  have hKind := kind_of_operator? hOperator
  have hPlain : pivot.reach = none := by
    by_contra hCalled
    have hName := (hRanked pivot hMem).called (Option.isSome_iff_ne_none.2 hCalled)
    rw [hKind] at hName
    cases hName
  have hStanding := standing_of_alternates hRanked hItems
  obtain ⟨q, hFront, hBehind⟩ := hItems.split hParts.eq hParts.closed
  obtain ⟨-, hValue, -⟩ | ⟨rfl, -, hBack⟩ := hBehind.of_plain hPlain
  · rcases kind_of_exists_ofToken? hValue with hOther | hOther <;> simp [hKind] at hOther
  · refine ⟨front, pivot, back, op, hParts.eq, hFront, hBack, ?_⟩
    rw [hTaken, (checkTopLevel_eq_ok_iff _).2 hStanding, hOperator]
    rfl

/-! ## Reading an alternation -/

private theorem exists_of_single {item : Item} (hItems : Alternates none .operand [item] .operator)
    (hReach : item.reach ≠ some 0) : ∃ e, Expr.ofToken? item.token = .ok e := by
  generalize hEq : [item] = items at hItems
  cases hItems with
  | operand _ hValue =>
      cases hEq
      exact hValue
  | @call _ _ inside behind _ hSome =>
      obtain ⟨rfl, hNil⟩ := List.cons.inj hEq
      obtain ⟨rfl, -⟩ := List.nil_eq_append_iff.1 hNil
      exact absurd hSome hReach

/-- The arguments of a call that holds an alternation alternate. -/
private theorem alternates_argumentsOf {name : Item} {items : List Item}
    (hRanked : ∀ i ∈ items, i.Ranked)
    (hItems : items ≠ [] →
      Alternates (some (name.priority + nestingStep)) .operand items .operator) :
    (argumentsOf name items).misplaced = none ∧
      ∀ a ∈ (argumentsOf name items).arguments, Alternates none .operand a.items .operator := by
  by_cases hNil : items = []
  · subst hNil
    exact ⟨rfl, by simp [argumentsOf]⟩
  · obtain ⟨first, others, hCut, hFirst, hOthers⟩ :=
      cutAt_of_alternates (hItems hNil) hRanked name.token.span
    rw [argumentsOf, if_neg (by simpa using hNil), hCut]
    exact ⟨rfl, List.forall_mem_cons.2 ⟨hFirst, hOthers⟩⟩

private theorem exists_of_alternates {items : List Item} (hRanked : ∀ i ∈ items, i.Ranked)
    (hItems : Alternates none .operand items .operator) (follows : Span) :
    ∃ e, Expr.ofItems? follows items = .ok e := by
  induction hLength : items.length using Nat.strongRecOn generalizing items follows with
  | _ length ih =>
  subst hLength
  cases items with
  | nil => cases hItems
  | cons first rest =>
      by_cases hReach : first.reach = some rest.length
      · -- a call that covers the rest: its arguments are shorter than the whole
        have hRankedRest := (List.forall_mem_cons.1 hRanked).2
        rw [← List.append_nil rest] at hItems
        obtain ⟨-, -, hInside⟩ := hItems.of_call hReach
        obtain ⟨hMisplaced, hArguments⟩ := alternates_argumentsOf hRankedRest hInside
        have hRead : ∀ a ∈ (argumentsOf first rest).arguments,
            ∃ e, Expr.ofItems? a.follows a.items = .ok e := fun a hMem =>
          ih a.items.length (Nat.lt_succ_of_le (length_le_of_mem_argumentsOf hMem))
            (forall_mem_argumentsOf hRankedRest a hMem) (hArguments a hMem) a.follows rfl
        obtain ⟨es, hes⟩ := exists_mapM_eq_ok hRead
        rw [Expr.ofItems?_call follows hReach, hes, hMisplaced]
        exact ⟨_, rfl⟩
      · by_cases hRest : rest = []
        · subst hRest
          have hBare : first.reach ≠ some 0 := by simpa using hReach
          rw [Expr.ofItems?_operand follows hBare]
          exact exists_of_single hItems hBare
        · obtain ⟨front, pivot, back, op, hEq, hFront, hBack, hTaken⟩ :=
            exists_pivot hRanked hItems hReach hRest follows
          rw [hEq] at hRanked ih
          obtain ⟨hRankedFront, hRankedBehind⟩ := List.forall_mem_append.1 hRanked
          rw [List.length_append, List.length_cons] at ih
          obtain ⟨left, hLeft⟩ := ih _ (by omega) hRankedFront hFront pivot.token.span rfl
          obtain ⟨right, hRight⟩ := ih _ (by omega) (List.forall_mem_cons.1 hRankedBehind).2 hBack
            pivot.token.span rfl
          rw [hTaken, hLeft]
          show ∃ e, (Expr.ofItems? pivot.token.span back >>= _) = .ok e
          rw [hRight]
          exact ⟨_, rfl⟩

/-- **The items that can be read are those that alternate.** -/
theorem exists_ofItems?_iff {items : List Item} (hNested : Nested items)
    (hRanked : ∀ i ∈ items, i.Ranked) (follows : Span) :
    (∃ e, Expr.ofItems? follows items = .ok e) ↔ Alternates none .operand items .operator := by
  constructor
  · rintro ⟨e, hRead⟩
    exact alternates_of_ofItems? hNested hRead
  · intro hItems
    exact exists_of_alternates hRanked hItems follows

end Fluxion.Item
