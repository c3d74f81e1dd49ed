import Fluxion.Expr.Parse
import Mathlib

/-!
# Where a list of items is taken apart

A list of items whose calls end inside it is **closed**: put in front of
another list it keeps its own top level. So the place at which a longer list
is taken apart can be found from comparisons between the items of the parts,
without following any positions.

## Main results

* `Expr.ofItems?_append` — two closed parts around an operator that is weaker
  than everything in front of it and not stronger than anything behind it.
* `Arguments.cutAt_closed`, `Arguments.cutAt_comma` — a closed part without
  commas is one argument.
-/

namespace Fluxion

namespace Item

/-! ## Closed lists -/

/-- How many items behind the list its calls still cover, when its first
`skip` items are covered already. -/
def overhang (skip : Nat) : List Item → Nat
  | [] => skip
  | item :: rest =>
    match skip with
    | 0 => overhang item.covered rest
    | skip + 1 => overhang skip rest

/-- No call of the list reaches beyond its end. -/
def Closed (items : List Item) : Prop :=
  overhang 0 items = 0

/-- The items outside the arguments of every call, when the first `skip` ones
are arguments. -/
def heads (skip : Nat) : List Item → List Item
  | [] => []
  | item :: rest =>
    match skip with
    | 0 => item :: heads item.covered rest
    | skip + 1 => heads skip rest

theorem overhang_append (skip : Nat) (front back : List Item) :
    overhang skip (front ++ back) = overhang (overhang skip front) back := by
  induction front generalizing skip with
  | nil => rfl
  | cons item front ih =>
      cases skip with
      | zero => exact ih item.covered
      | succ skip => exact ih skip

theorem heads_append (skip : Nat) (front back : List Item) :
    heads skip (front ++ back) = heads skip front ++ heads (overhang skip front) back := by
  induction front generalizing skip with
  | nil => rfl
  | cons item front ih =>
      cases skip with
      | zero => exact congrArg (item :: ·) (ih item.covered)
      | succ skip => exact ih skip

/-- A list is covered to its end by as many items as it has. -/
theorem overhang_of_length_le {skip : Nat} {items : List Item} (hLength : items.length ≤ skip) :
    overhang skip items = skip - items.length := by
  induction items generalizing skip with
  | nil => rfl
  | cons item rest ih =>
      rw [List.length_cons] at hLength ⊢
      obtain ⟨skip, rfl⟩ : ∃ n, skip = n + 1 := ⟨skip - 1, by omega⟩
      rw [overhang, ih (by omega)]
      omega

theorem heads_of_length_le {skip : Nat} {items : List Item} (hLength : items.length ≤ skip) :
    heads skip items = [] := by
  induction items generalizing skip with
  | nil => rfl
  | cons item rest ih =>
      rw [List.length_cons] at hLength
      obtain ⟨skip, rfl⟩ : ∃ n, skip = n + 1 := ⟨skip - 1, by omega⟩
      exact ih (by omega)

theorem mem_of_mem_heads {skip : Nat} {items : List Item} {item : Item}
    (hMem : item ∈ heads skip items) : item ∈ items := by
  induction items generalizing skip with
  | nil => exact hMem
  | cons first rest ih =>
      cases skip with
      | zero =>
          rcases List.mem_cons.1 hMem with rfl | hLater
          · exact List.mem_cons_self
          · exact List.mem_cons_of_mem _ (ih hLater)
      | succ skip => exact List.mem_cons_of_mem _ (ih hMem)

theorem Closed.append {front back : List Item} (hFront : Closed front) (hBack : Closed back) :
    Closed (front ++ back) := by
  rw [Closed, overhang_append, hFront, hBack]

theorem Closed.heads_append {front : List Item} (hFront : Closed front) (back : List Item) :
    heads 0 (front ++ back) = heads 0 front ++ heads 0 back := by
  rw [Item.heads_append, hFront]

/-- The first item of a closed list covers no more than the list has. -/
theorem Closed.covered_le {item : Item} {rest : List Item} (hClosed : Closed (item :: rest)) :
    item.covered ≤ rest.length := by
  rcases Nat.lt_or_ge rest.length item.covered with hLong | hShort
  · rw [Closed, overhang, overhang_of_length_le (Nat.le_of_lt hLong)] at hClosed
    omega
  · exact hShort

/-- An item that covers the rest of the list exactly is a list of its own. -/
theorem closed_of_covered {item : Item} {rest : List Item} (hCovered : item.covered = rest.length) :
    Closed (item :: rest) := by
  rw [Closed, overhang, hCovered, overhang_of_length_le (Nat.le_refl _), Nat.sub_self]

theorem heads_of_covered {item : Item} {rest : List Item} (hCovered : item.covered = rest.length) :
    heads 0 (item :: rest) = [item] := by
  rw [heads, hCovered, heads_of_length_le (Nat.le_refl _)]

/-! ## The top level of a list put together -/

theorem map_snd_topLevelFrom (skip position : Nat) (items : List Item) :
    (topLevelFrom skip position items).map Prod.snd = heads skip items := by
  induction items generalizing skip position with
  | nil => rfl
  | cons item rest ih =>
      cases skip with
      | zero => simp [topLevelFrom, heads, ih]
      | succ skip => simp [topLevelFrom, heads, ih]

theorem topLevelFrom_append (skip position : Nat) (front back : List Item) :
    topLevelFrom skip position (front ++ back) =
      topLevelFrom skip position front
        ++ topLevelFrom (overhang skip front) (position + front.length) back := by
  induction front generalizing skip position with
  | nil => rfl
  | cons item front ih =>
      cases skip with
      | zero =>
          simp only [List.cons_append, topLevelFrom, ih, overhang, List.length_cons]
          rw [show position + 1 + front.length = position + (front.length + 1) by omega]
      | succ skip =>
          simp only [List.cons_append, topLevelFrom, ih, overhang, List.length_cons]
          rw [show position + 1 + front.length = position + (front.length + 1) by omega]

/-- Numbers and names can stand anywhere. -/
theorem checkStanding_of_kind {item : Item}
    (hKind : item.token.kind = .number ∨ item.token.kind = .name) :
    item.checkStanding = .ok () := by
  rcases hKind with hKind | hKind <;> simp [checkStanding, hKind]

/-- The items of the top level can stand there if and only if each of them
can. -/
theorem checkTopLevel_eq_ok_iff (items : List Item) :
    checkTopLevel items = .ok () ↔ ∀ item ∈ heads 0 items, item.checkStanding = .ok () := by
  rw [checkTopLevel, topLevel, ← map_snd_topLevelFrom 0 0 items]
  induction topLevelFrom 0 0 items with
  | nil => simp [pure, Except.pure]
  | cons placed rest ih =>
      obtain ⟨position, item⟩ := placed
      rw [List.map_cons, List.forall_mem_cons, ← ih]
      show (item.checkStanding >>= fun _ => rest.forM _) = .ok () ↔ _
      cases hCheck : item.checkStanding with
      | error e => simp [bind, Except.bind]
      | ok u => simp [bind, Except.bind]

/-! ## The weakest item of a list put together -/

private theorem foldl_weaker_eq_self {start : Nat × Item} {placed : List (Nat × Item)}
    (hStays : ∀ next ∈ placed, next.2.weakerThan start.2 = false) :
    placed.foldl weaker start = start := by
  induction placed with
  | nil => rfl
  | cons next placed ih =>
      have hNext : weaker start next = start := by
        rw [weaker, hStays next (by simp)]
        rfl
      rw [List.foldl_cons, hNext]
      exact ih fun later hMem => hStays later (by simp [hMem])

/-- **The weakest item of a list put together.** An item that is weaker than
everything in front of it, and than which nothing behind it is weaker. -/
theorem weakest_append {first pivot : Item} {front back : List Item}
    (hClosed : Closed (first :: front)) (hBare : pivot.covered = 0)
    (hFront : ∀ item ∈ heads 0 (first :: front), pivot.weakerThan item = true)
    (hBack : ∀ item ∈ heads 0 back, item.weakerThan pivot = false) :
    weakest first (front ++ pivot :: back) = (front.length + 1, pivot) := by
  have hOverhang : overhang first.covered front = 0 := hClosed
  have hBefore : weaker (weakest first front) (1 + front.length, pivot) =
      (1 + front.length, pivot) := by
    have hMem : (weakest first front).2 ∈ heads 0 (first :: front) := by
      rw [← map_snd_topLevelFrom 0 0]
      exact List.mem_map_of_mem (weakest_mem first front)
    rw [weaker, if_pos (hFront _ hMem)]
  have hAfter : ∀ next ∈ topLevelFrom 0 (1 + front.length + 1) back,
      next.2.weakerThan pivot = false := by
    intro next hNext
    refine hBack next.2 ?_
    rw [← map_snd_topLevelFrom 0 (1 + front.length + 1)]
    exact List.mem_map_of_mem hNext
  calc weakest first (front ++ pivot :: back)
      = (topLevelFrom pivot.covered (1 + front.length + 1) back).foldl weaker
          (weaker (weakest first front) (1 + front.length, pivot)) := by
        rw [weakest, topLevelFrom_append, hOverhang, List.foldl_append]
        rfl
    _ = (1 + front.length, pivot) := by
        rw [hBefore, hBare]
        exact foldl_weaker_eq_self hAfter
    _ = (front.length + 1, pivot) := by rw [Nat.add_comm]

/-! ## Cutting at commas -/

namespace Arguments

/-- A closed part without commas on its top level goes to the argument that is
being collected. -/
theorem cutAt_append {separator : Int} {skip : Nat} {follows : Span}
    {front : List Item} (hPlain : ∀ item ∈ heads skip front, item.token.kind ≠ .comma)
    (back : List Item) :
    cutAt separator skip follows (front ++ back) =
      front.foldr consItem (cutAt separator (overhang skip front) follows back) := by
  induction front generalizing skip with
  | nil => rfl
  | cons item front ih =>
      cases skip with
      | zero =>
          have hItem : item.token.kind ≠ .comma := hPlain item (by simp [heads])
          have hLater : ∀ later ∈ heads item.covered front, later.token.kind ≠ .comma :=
            fun later hMem => hPlain later (by simp [heads, hMem])
          have hRest := ih hLater
          rw [List.cons_append, cutAt, if_neg hItem, hRest]
          rfl
      | succ skip =>
          have hLater : ∀ later ∈ heads skip front, later.token.kind ≠ .comma := hPlain
          have hRest := ih hLater
          rw [List.cons_append, cutAt, hRest]
          rfl

theorem foldr_consItem (front : List Item) (follows : Span) (items : List Item)
    (cut : Arguments) :
    front.foldr consItem (cut.consArgument ⟨follows, items⟩) =
      cut.consArgument ⟨follows, front ++ items⟩ := by
  induction front with
  | nil => rfl
  | cons item front ih =>
      rw [List.foldr_cons, ih]
      rfl

section

variable {separator : Int} {follows : Span} {front : List Item} (hClosed : Closed front)
  (hPlain : ∀ item ∈ heads 0 front, item.token.kind ≠ .comma)
include hClosed hPlain

/-- A closed part without commas on its top level is one argument. -/
theorem cutAt_closed : cutAt separator 0 follows front = ⟨[⟨follows, front⟩], none⟩ := by
  have hCut : cutAt separator 0 follows (front ++ []) =
      front.foldr consItem (cutAt separator (overhang 0 front) follows []) :=
    cutAt_append hPlain []
  have hEnd : cutAt separator 0 follows [] = (⟨[], none⟩ : Arguments).consArgument ⟨follows, []⟩ :=
    rfl
  rw [List.append_nil, hClosed, hEnd, foldr_consItem, List.append_nil] at hCut
  exact hCut

/-- A closed part without commas on its top level is the argument in front of
the comma that follows it. -/
theorem cutAt_comma {comma : Item} {back : List Item} (hKind : comma.token.kind = .comma)
    (hPriority : comma.priority = separator) (hBare : comma.covered = 0) :
    cutAt separator 0 follows (front ++ comma :: back) =
      (cutAt separator 0 comma.token.span back).consArgument ⟨follows, front⟩ := by
  have hComma : cutAt separator 0 follows (comma :: back) =
      (cutAt separator 0 comma.token.span back).consArgument ⟨follows, []⟩ := by
    rw [cutAt, if_pos hKind, if_pos hPriority, hBare]
  rw [cutAt_append hPlain, hClosed, hComma, foldr_consItem, List.append_nil]

end

end Arguments

end Item

/-! ## Taking a list of items apart -/

namespace Expr

open Item

/-- **An operation is taken apart at its operator** if that is weaker than
everything in front of it and nothing behind it is weaker. -/
theorem ofItems?_append {pivot : Item} {front back : List Item} {op : Operator}
    (hSome : front ≠ []) (hClosed : Closed front) (hBare : pivot.covered = 0)
    (hOp : pivot.token.operator? = some op)
    (hStanding : ∀ item ∈ heads 0 (front ++ pivot :: back), item.checkStanding = .ok ())
    (hFront : ∀ item ∈ heads 0 front, pivot.weakerThan item = true)
    (hBack : ∀ item ∈ heads 0 back, item.weakerThan pivot = false) (follows : Span) :
    ofItems? follows (front ++ pivot :: back) =
      ofItems? pivot.token.span front >>= fun left =>
        ofItems? pivot.token.span back >>= fun right => .ok (binary op left right) := by
  obtain ⟨first, front, rfl⟩ := List.exists_cons_of_ne_nil hSome
  have hWeakest := weakest_append hClosed hBare hFront hBack
  have hReach : first.reach ≠ some (front ++ pivot :: back).length := by
    intro hReach
    have hCovered := hClosed.covered_le
    rw [Item.covered, hReach, List.length_append, List.length_cons, Option.getD_some] at hCovered
    omega
  rw [List.cons_append] at hStanding ⊢
  rw [ofItems?_operation follows hReach (by simp), (checkTopLevel_eq_ok_iff _).2 hStanding,
    hWeakest]
  simp only [hOp]
  have hTake : (first :: (front ++ pivot :: back)).take (front.length + 1) = first :: front := by
    simp
  have hDrop : (first :: (front ++ pivot :: back)).drop (front.length + 1 + 1) = back := by
    simp [List.drop_append]
  rw [hTake, hDrop]
  rfl

end Expr

end Fluxion
