import Fluxion.Proofs.Outcome
import Fluxion.Proofs.Splitting

/-!
# What stands around the weakest item

The weakest item is found by comparing each item of the top level with the best
one so far. The comparisons that are not made follow from those that are, since
being weaker is transitive; so the weakest item compares with all the others as
it should: it is weaker than everything in front of it, and nothing behind it
is weaker.

## Main results

* `Item.exists_parts` — the weakest item stands between two parts to which it
  compares in this way.
* `Item.Parts.priority_le` — no item of the top level has a lower priority.
* `Item.exists_of_operation` — an operation is taken apart into such parts.
* `Item.reading_induction` — what carries over from the parts of calls and
  operations holds of whatever is read.
-/

namespace Fluxion.Item

/-! ## Being weaker -/

theorem weakerThan_iff (later earlier : Item) :
    later.weakerThan earlier = true ↔ later.priority < earlier.priority ∨
      later.priority = earlier.priority ∧
        later.token.operator?.any (·.associativity = .left) = true := by
  unfold weakerThan
  split
  · next hEqual =>
      constructor
      · intro hLeft
        exact .inr ⟨hEqual, hLeft⟩
      · rintro (hLower | ⟨-, hLeft⟩)
        · omega
        · exact hLeft
  · next hDifferent => simp [hDifferent]

section

variable {a b c : Item}

theorem weakerThan_trans (hab : a.weakerThan b = true) (hbc : b.weakerThan c = true) :
    a.weakerThan c = true := by
  rw [weakerThan_iff] at *
  rcases hab with hab | ⟨hab, hLeft⟩
  · exact .inl (by omega)
  · rcases hbc with hbc | ⟨hbc, -⟩
    · exact .inl (by omega)
    · exact .inr ⟨by omega, hLeft⟩

/-- What is weaker than an item is weaker than those that are not. -/
theorem weakerThan_of_not (hab : a.weakerThan b = true) (hcb : c.weakerThan b = false) :
    a.weakerThan c = true := by
  have hcb : ¬ c.weakerThan b = true := by simp [hcb]
  rw [weakerThan_iff] at *
  rw [not_or, not_and] at hcb
  rcases hab with hab | ⟨hab, hLeft⟩
  · exact .inl (by omega)
  · by_cases hEqual : a.priority = c.priority
    · exact .inr ⟨hEqual, hLeft⟩
    · exact .inl (by omega)

end

/-! ## Comparing one after the other -/

/-- What comes out of the comparisons stands among what is compared: it is
weaker than everything in front of it, and nothing behind it is weaker. -/
private theorem exists_of_foldl_weaker (start : Nat × Item) (placed : List (Nat × Item)) :
    ∃ before after, start :: placed = before ++ placed.foldl weaker start :: after ∧
      (∀ other ∈ before, (placed.foldl weaker start).2.weakerThan other.2 = true) ∧
      ∀ other ∈ after, other.2.weakerThan (placed.foldl weaker start).2 = false := by
  induction placed generalizing start with
  | nil => exact ⟨[], [], rfl, by simp, by simp⟩
  | cons next placed ih =>
      rw [List.foldl_cons]
      cases hNext : next.2.weakerThan start.2 with
      | true =>
          have hBest : weaker start next = next := by rw [weaker, if_pos hNext]
          rw [hBest]
          obtain ⟨before, after, hEq, hBefore, hAfter⟩ := ih next
          refine ⟨start :: before, after, congrArg (start :: ·) hEq,
            List.forall_mem_cons.2 ⟨?_, hBefore⟩, hAfter⟩
          -- `next` is the best one itself or stands in front of it
          cases before with
          | nil =>
              rw [← (List.cons.inj hEq).1]
              exact hNext
          | cons first before =>
              rw [← (List.cons.inj hEq).1] at hBefore
              exact weakerThan_trans (hBefore next List.mem_cons_self) hNext
      | false =>
          have hBest : weaker start next = start := by rw [weaker, hNext]; rfl
          rw [hBest]
          obtain ⟨before, after, hEq, hBefore, hAfter⟩ := ih start
          cases before with
          | nil =>
              obtain ⟨hStart, rfl⟩ := List.cons.inj hEq
              refine ⟨[], next :: placed, by rw [← hStart]; rfl, by simp,
                List.forall_mem_cons.2 ⟨?_, hAfter⟩⟩
              rw [← hStart]
              exact hNext
          | cons first before =>
              obtain ⟨rfl, hRest⟩ := List.cons.inj hEq
              refine ⟨start :: next :: before, after, congrArg (start :: next :: ·) hRest,
                List.forall_mem_cons.2 ⟨hBefore start List.mem_cons_self,
                  List.forall_mem_cons.2 ⟨?_, (List.forall_mem_cons.1 hBefore).2⟩⟩, hAfter⟩
              exact weakerThan_of_not (hBefore start List.mem_cons_self) hNext

/-! ## The parts -/

/-- An item between two parts of a list, the first of them closed. It is weaker
than everything on the top level of the first part, and nothing on that of the
second part is weaker. -/
structure Parts (items front : List Item) (pivot : Item) (back : List Item) : Prop where
  eq : items = front ++ pivot :: back
  closed : Closed front
  front : ∀ item ∈ heads 0 front, pivot.weakerThan item = true
  back : ∀ item ∈ heads pivot.covered back, item.weakerThan pivot = false

/-- **No item of the top level has a lower priority than the weakest one.** -/
theorem Parts.priority_le {items front back : List Item} {pivot : Item}
    (hParts : Parts items front pivot back) :
    ∀ item ∈ heads 0 items, pivot.priority ≤ item.priority := by
  rw [hParts.eq, hParts.closed.heads_append, heads, List.forall_mem_append, List.forall_mem_cons]
  refine ⟨fun item hMem => ?_, Int.le_refl _, fun item hMem => ?_⟩
  · rcases (weakerThan_iff pivot item).1 (hParts.front item hMem) with hLower | ⟨hEqual, -⟩ <;>
      omega
  · have hNot : ¬ item.weakerThan pivot = true := by simp [hParts.back item hMem]
    rw [weakerThan_iff, not_or] at hNot
    omega

/-- An item of the top level, with the parts of the list and of the top level
that stand around it. -/
private theorem exists_of_topLevelFrom {items : List Item} {skip position index : Nat}
    {item : Item} {before after : List (Nat × Item)}
    (hEq : topLevelFrom skip position items = before ++ (index, item) :: after) :
    ∃ front back, items = front ++ item :: back ∧ index = position + front.length ∧
      overhang skip front = 0 ∧ heads skip front = before.map Prod.snd ∧
      heads item.covered back = after.map Prod.snd := by
  induction items generalizing skip position before with
  | nil => cases before <;> cases hEq
  | cons first rest ih =>
      cases skip with
      | succ skip =>
          obtain ⟨front, back, rfl, rfl, hOverhang, hBefore, hAfter⟩ := ih hEq
          exact ⟨first :: front, back, rfl, by rw [List.length_cons]; omega, hOverhang, hBefore,
            hAfter⟩
      | zero =>
          cases before with
          | nil =>
              obtain ⟨hHere, rfl⟩ := List.cons.inj hEq
              cases hHere
              exact ⟨[], rest, rfl, rfl, rfl, rfl, (map_snd_topLevelFrom _ _ _).symm⟩
          | cons placed before =>
              obtain ⟨rfl, hRest⟩ := List.cons.inj hEq
              obtain ⟨front, back, rfl, rfl, hOverhang, hBefore, hAfter⟩ := ih hRest
              exact ⟨first :: front, back, rfl, by rw [List.length_cons]; omega, hOverhang,
                congrArg (first :: ·) hBefore, hAfter⟩

/-- **The weakest item stands between two parts** to which it compares as the
weakest. -/
theorem exists_parts (first : Item) (rest : List Item) :
    ∃ front back, Parts (first :: rest) front (weakest first rest).2 back ∧
      (weakest first rest).1 = front.length := by
  obtain ⟨before, after, hEq, hBefore, hAfter⟩ :=
    exists_of_foldl_weaker (0, first) (topLevelFrom first.covered 1 rest)
  have hTopLevel : topLevelFrom 0 0 (first :: rest) =
      before ++ ((weakest first rest).1, (weakest first rest).2) :: after := hEq
  obtain ⟨front, back, hItems, hPosition, hClosed, hFront, hBack⟩ :=
    exists_of_topLevelFrom hTopLevel
  rw [Nat.zero_add] at hPosition
  refine ⟨front, back, ⟨hItems, hClosed, ?_, ?_⟩, hPosition⟩
  · rw [hFront]
    exact List.forall_mem_map.2 hBefore
  · rw [hBack]
    exact List.forall_mem_map.2 hAfter

/-- The weakest item stands between the two lists that an operation is taken
apart into. -/
theorem exists_of_weakest {first : Item} {rest : List Item}
    (hReach : first.reach ≠ some rest.length) (hRest : rest ≠ []) (follows : Span) :
    ∃ front pivot back, Parts (first :: rest) front pivot back ∧
      pivot = (weakest first rest).2 ∧
      Expr.ofItems? follows (first :: rest) =
        checkTopLevel (first :: rest) >>= fun _ =>
          match pivot.token.operator? with
          | none => .error ⟨pivot.token.span, .expectedOperator pivot.token.text⟩
          | some op =>
            Expr.ofItems? pivot.token.span front >>= fun left =>
              Expr.ofItems? pivot.token.span back >>= fun right =>
                .ok (.binary op left right) := by
  rw [Expr.ofItems?_operation follows hReach hRest]
  obtain ⟨front, back, hParts, hPosition⟩ := exists_parts first rest
  have hTake : (first :: rest).take (weakest first rest).1 = front := by
    rw [hParts.eq, hPosition, List.take_left]
  have hDrop : (first :: rest).drop ((weakest first rest).1 + 1) = back := by
    rw [hParts.eq, hPosition, ← List.drop_drop, List.drop_left]
    rfl
  rw [hTake, hDrop]
  exact ⟨front, _, back, hParts, rfl, rfl⟩

/-- An operation that can be read is taken apart into two parts that can. -/
theorem exists_of_operation {follows : Span} {first : Item} {rest : List Item} {e : Expr}
    (hReach : first.reach ≠ some rest.length) (hRest : rest ≠ [])
    (hRead : Expr.ofItems? follows (first :: rest) = .ok e) :
    ∃ front pivot back op left right, Parts (first :: rest) front pivot back ∧
      pivot.token.operator? = some op ∧ Expr.ofItems? pivot.token.span front = .ok left ∧
        Expr.ofItems? pivot.token.span back = .ok right ∧ e = .binary op left right := by
  obtain ⟨front, pivot, back, hParts, -, hTaken⟩ := exists_of_weakest hReach hRest follows
  rw [hTaken] at hRead
  obtain ⟨-, -, hRead⟩ := bind_eq_ok_iff.1 hRead
  cases hOp : pivot.token.operator? with
  | none =>
      rw [hOp] at hRead
      cases hRead
  | some op =>
      rw [hOp] at hRead
      obtain ⟨left, hLeft, hRead⟩ := bind_eq_ok_iff.1 hRead
      obtain ⟨right, hRight, hRead⟩ := bind_eq_ok_iff.1 hRead
      cases hRead
      exact ⟨front, pivot, back, op, left, right, hParts, hOp, hLeft, hRight, rfl⟩

/-! ## Following the reading of items -/

/-- What a call is cut into, if it has anything inside and no comma is
misplaced. -/
theorem cutAt_eq_argumentsOf {name : Item} {items : List Item} (hSome : items ≠ [])
    (hMisplaced : (argumentsOf name items).misplaced = none) :
    Arguments.cutAt (name.priority + Token.nestingStep) 0 name.token.span items =
      ⟨(argumentsOf name items).arguments, none⟩ := by
  rw [← hMisplaced, argumentsOf, if_neg (by simpa using hSome)]

/-- **Induction along the reading of items**: what holds of operands, and of calls
and operations if it holds of their parts, holds of whatever is read. -/
theorem reading_induction {motive : List Item → Expr → Prop}
    (call : ∀ first rest es, first.reach = some rest.length →
      (argumentsOf first rest).misplaced = none →
      List.Forall₂ (fun (a : Argument) e => motive a.items e)
        (argumentsOf first rest).arguments es →
      motive (first :: rest) (.call first.token.text es))
    (operand : ∀ (item : Item) e, item.reach ≠ some 0 → Expr.ofToken? item.token = .ok e →
      motive [item] e)
    (operation : ∀ items front pivot back op left right, Parts items front pivot back →
      pivot.token.operator? = some op → motive front left → motive back right →
      motive items (.binary op left right))
    {items : List Item} {follows : Span} {e : Expr}
    (hRead : Expr.ofItems? follows items = .ok e) : motive items e := by
  induction hLength : items.length using Nat.strongRecOn generalizing items follows e with
  | _ length ih =>
  subst hLength
  cases items with
  | nil =>
      rw [Expr.ofItems?_nil] at hRead
      cases hRead
  | cons first rest =>
      by_cases hReach : first.reach = some rest.length
      · -- a call that covers the rest: its arguments are shorter than the whole
        rw [Expr.ofItems?_call follows hReach] at hRead
        obtain ⟨es, hArguments, hRead⟩ := bind_eq_ok_iff.1 hRead
        cases hMisplaced : (argumentsOf first rest).misplaced with
        | some comma =>
            rw [hMisplaced] at hRead
            cases hRead
        | none =>
            rw [hMisplaced] at hRead
            cases hRead
            have hShorter : ∀ a ∈ (argumentsOf first rest).arguments,
                a.items.length ≤ rest.length := fun a => length_le_of_mem_argumentsOf
            refine call first rest es hReach hMisplaced ?_
            exact ((List.forall₂_and_left _ _).2 ⟨hShorter, mapM_eq_ok_iff.1 hArguments⟩).imp
              fun a e hArgument =>
                ih a.items.length (Nat.lt_succ_of_le hArgument.1) hArgument.2 rfl
      · by_cases hSingle : rest = []
        · subst hSingle
          have hBare : first.reach ≠ some 0 := by simpa using hReach
          rw [Expr.ofItems?_operand follows hBare] at hRead
          exact operand first e hBare hRead
        · obtain ⟨front, pivot, back, op, left, right, hParts, hOp, hLeft, hRight, rfl⟩ :=
            exists_of_operation hReach hSingle hRead
          have hShorter : front.length < (first :: rest).length ∧
              back.length < (first :: rest).length := by
            rw [hParts.eq, List.length_append, List.length_cons]
            omega
          exact operation _ front pivot back op left right hParts hOp
            (ih _ hShorter.1 hLeft rfl) (ih _ hShorter.2 hRight rfl)

end Fluxion.Item
