import Fluxion.Proofs.Alternation
import Fluxion.Proofs.BracketedItems
import Fluxion.Proofs.Phrase

/-!
# How many parentheses items need

Items have no parentheses left, but the depths of their tokens tell how many
there must have been: to get from one depth to a greater one, parentheses have
to be opened. Calls open one of their own, and whatever was opened in a call is
closed behind it. So walking along the items and adding up all that is climbed
gives a number of opening parentheses that no source of these items can do
without.

## Main results

* `Item.Climbs.split` — what is climbed along a list is climbed along its parts.
* `Bracketed.exists_climbs` — a source has at least as many opening parentheses
  as its items climb.
* `Bracketed.count_source` — its opening parentheses are those of its pairs.
-/

namespace Fluxion

open Token

namespace Item

/-! ## Depths -/

/-- The item has the priority of its token inside `depth` pairs of
parentheses. -/
def LiesAt (depth : Nat) (item : Item) : Prop :=
  item.priority = priorityAt depth item.token

/-- The item lies at this depth or deeper. -/
def LiesFrom (depth : Nat) (item : Item) : Prop :=
  ∃ d, depth ≤ d ∧ item.LiesAt d

/-! ## Climbing -/

/-- Walking along items from a level to the depth of the last one, inside calls
and out of them again, this is climbed in all. What a call covers lies deeper
than the call. -/
inductive Climbs : Nat → List Item → Nat → Nat → Prop
  | nil {level : Nat} : Climbs level [] level 0
  | plain {level depth last climbed : Nat} {item : Item} {rest : List Item}
      (hReach : item.reach = none) (hDepth : item.LiesAt depth)
      (hRest : Climbs depth rest last climbed) :
      Climbs level (item :: rest) last (depth - level + climbed)
  | call {level depth inner last inside climbed : Nat} {item : Item} {covered rest : List Item}
      (hReach : item.reach = some covered.length) (hKind : item.token.kind = .name)
      (hDepth : item.LiesAt depth) (hDeeper : ∀ other ∈ covered, other.LiesFrom (depth + 1))
      (hInside : Climbs (depth + 1) covered inner inside)
      (hRest : Climbs depth rest last climbed) :
      Climbs level (item :: (covered ++ rest)) last (depth - level + (inside + 1) + climbed)

namespace Climbs

variable {level last climbed : Nat} {front back : List Item}

theorem append {middle other : Nat} (hFront : Climbs level front middle climbed)
    (hBack : Climbs middle back last other) :
    Climbs level (front ++ back) last (climbed + other) := by
  induction hFront with
  | nil =>
      rw [Nat.zero_add]
      exact hBack
  | plain hReach hDepth _ ih =>
      rw [Nat.add_assoc]
      exact .plain hReach hDepth (ih hBack)
  | call hReach hKind hDepth hDeeper hInside _ _ ih =>
      rw [List.cons_append, List.append_assoc, Nat.add_assoc]
      exact .call hReach hKind hDepth hDeeper hInside (ih hBack)

/-- What is not called is climbed to, and then the rest is walked along. -/
theorem of_cons {item : Item} {rest : List Item}
    (hClimbs : Climbs level (item :: rest) last climbed)
    (hKind : item.token.kind ≠ .name) :
    ∃ depth behind, item.reach = none ∧ item.LiesAt depth ∧ Climbs depth rest last behind ∧
      climbed = depth - level + behind := by
  cases hClimbs with
  | plain hReach hDepth hRest => exact ⟨_, _, hReach, hDepth, hRest, rfl⟩
  | call _ hName => exact absurd hName hKind

/-- A single item is climbed to. -/
theorem of_single {item : Item} (hClimbs : Climbs level [item] last climbed)
    (hReach : item.reach ≠ some 0) : last - level ≤ climbed := by
  generalize hEq : [item] = items at hClimbs
  cases hClimbs with
  | nil => cases hEq
  | plain _ _ hRest =>
      cases hEq
      cases hRest
      omega
  | @call _ _ _ _ _ _ _ covered rest hSome =>
      obtain ⟨rfl, hNil⟩ := List.cons.inj hEq
      obtain ⟨rfl, -⟩ := List.nil_eq_append_iff.1 hNil
      exact absurd hSome hReach

/-- A call that covers the rest of a list is climbed to, opens a parenthesis and
has the rest walked along inside. -/
theorem of_call {item : Item} {rest : List Item}
    (hClimbs : Climbs level (item :: rest) last climbed)
    (hReach : item.reach = some rest.length) :
    ∃ inner inside, item.LiesAt last ∧ item.token.kind = .name ∧
      (∀ other ∈ rest, other.LiesFrom (last + 1)) ∧ Climbs (last + 1) rest inner inside ∧
      climbed = last - level + (inside + 1) := by
  generalize hEq : item :: rest = items at hClimbs
  cases hClimbs with
  | nil => cases hEq
  | plain hNone =>
      cases hEq
      rw [hNone] at hReach
      cases hReach
  | @call _ _ _ _ _ _ _ covered behind hSome hKind hDepth hDeeper hInside hRest =>
      cases hEq
      rw [hSome, Option.some.injEq, List.length_append] at hReach
      obtain rfl : behind = [] := List.length_eq_zero_iff.1 (by omega)
      cases hRest
      rw [List.append_nil]
      exact ⟨_, _, hDepth, hKind, hDeeper, hInside, rfl⟩

private theorem split_nil {items : List Item} (hClimbs : Climbs level items last climbed)
    (hEq : items = [] ++ back) :
    ∃ middle n m, Climbs level [] middle n ∧ Climbs middle back last m ∧ climbed = n + m := by
  rw [hEq] at hClimbs
  exact ⟨level, 0, climbed, .nil, hClimbs, (Nat.zero_add climbed).symm⟩

/-- **What is climbed along a list is climbed along its parts**, if the first of
them is closed. -/
theorem split {items : List Item} (hClimbs : Climbs level items last climbed)
    (hEq : items = front ++ back) (hClosed : Closed front) :
    ∃ middle n m, Climbs level front middle n ∧ Climbs middle back last m ∧ climbed = n + m := by
  induction hClimbs generalizing front with
  | nil =>
      obtain ⟨rfl, rfl⟩ := List.nil_eq_append_iff.1 hEq
      exact ⟨_, 0, 0, .nil, .nil, rfl⟩
  | plain hReach hDepth hRest ih =>
      cases front with
      | nil => exact split_nil (.plain hReach hDepth hRest) hEq
      | cons first front =>
          obtain ⟨rfl, rfl⟩ := List.cons.inj hEq
          rw [Closed, overhang, covered, hReach, Option.getD_none] at hClosed
          obtain ⟨middle, n, m, hFront, hBack, rfl⟩ := ih rfl hClosed
          exact ⟨middle, _, m, .plain hReach hDepth hFront, hBack, (Nat.add_assoc _ n m).symm⟩
  | call hReach hKind hDepth hDeeper hInside hRest _ ih =>
      cases front with
      | nil => exact split_nil (.call hReach hKind hDepth hDeeper hInside hRest) hEq
      | cons first front =>
          obtain ⟨rfl, hRestEq⟩ := List.cons.inj hEq
          obtain ⟨others, rfl, rfl, hOthers⟩ := exists_of_closed_call hReach hRestEq hClosed
          obtain ⟨middle, n, m, hFront, hBack, rfl⟩ := ih rfl hOthers
          exact ⟨middle, _, m, .call hReach hKind hDepth hDeeper hInside hFront, hBack,
            (Nat.add_assoc _ n m).symm⟩

end Climbs

end Item

namespace Bracketed

open Item

/-! ## Sources -/

/-- The number of pairs of parentheses. -/
def pairs : Bracketed → Nat
  | nil => 0
  | word _ rest => rest.pairs
  | group _ _ inside rest => inside.pairs + 1 + rest.pairs
  | call _ _ _ inside rest => inside.pairs + 1 + rest.pairs

/-- The items of a sequence lie at the depth of the sequence or deeper. -/
theorem liesFrom_items (b : Bracketed) (depth : Nat) :
    ∀ item ∈ b.items depth, item.LiesFrom depth := by
  induction b generalizing depth with
  | nil => simp [items]
  | word t rest ih =>
      rw [items, List.forall_mem_cons]
      exact ⟨⟨depth, Nat.le_refl _, rfl⟩, ih depth⟩
  | group opening closing inside rest ihInside ih =>
      rw [items, List.forall_mem_append]
      refine ⟨fun item hMem => ?_, ih depth⟩
      obtain ⟨d, hDepth, hLies⟩ := ihInside (depth + 1) item hMem
      exact ⟨d, by omega, hLies⟩
  | call name opening closing inside rest ihInside ih =>
      rw [items, List.forall_mem_cons, List.forall_mem_append]
      refine ⟨⟨depth, Nat.le_refl _, rfl⟩, fun item hMem => ?_, ih depth⟩
      obtain ⟨d, hDepth, hLies⟩ := ihInside (depth + 1) item hMem
      exact ⟨d, by omega, hLies⟩

/-- **A sequence has at least as many pairs as its items climb.** Where the walk
starts too low, or ends too low, the difference is climbed before or may be
climbed behind. -/
theorem exists_climbs {b : Bracketed} (hProper : b.Proper) (depth level : Nat) :
    ∃ last climbed, Climbs level (b.items depth) last climbed ∧
      climbed + (depth - last) ≤ b.pairs + (depth - level) := by
  induction b generalizing depth level with
  | nil => exact ⟨level, 0, .nil, Nat.le_refl _⟩
  | word t rest ih =>
      obtain ⟨last, climbed, hClimbs, hBound⟩ := ih hProper.2.2 depth depth
      refine ⟨last, _, .plain rfl rfl hClimbs, ?_⟩
      rw [pairs]
      omega
  | group opening closing inside rest ihInside ih =>
      obtain ⟨middle, n, hInside, hBoundInside⟩ := ihInside hProper.2.2.1 (depth + 1) level
      obtain ⟨last, m, hRest, hBound⟩ := ih hProper.2.2.2 depth middle
      refine ⟨last, n + m, hInside.append hRest, ?_⟩
      rw [pairs]
      omega
  | call name opening closing inside rest ihInside ih =>
      obtain ⟨-, hKind, -⟩ := Grammar.exists_function hProper.1
      obtain ⟨inner, n, hInside, hBoundInside⟩ := ihInside hProper.2.2.2.1 (depth + 1) (depth + 1)
      obtain ⟨last, m, hRest, hBound⟩ := ih hProper.2.2.2.2 depth depth
      refine ⟨last, _, .call (by rw [length_items]) hKind rfl
        (inside.liesFrom_items (depth + 1)) hInside hRest, ?_⟩
      rw [pairs]
      omega

private theorem count_eq_zero {s : List Char} (hPlain : ∀ c ∈ s, c ≠ '(' ∧ c ≠ ')') :
    s.count '(' = 0 :=
  List.count_eq_zero.2 fun hMem => (hPlain _ hMem).1 rfl

private theorem count_pair {opening closing : Token} (hOpening : opening.Spelled)
    (hClosing : closing.Spelled) (hOpeningKind : opening.kind = .openParen)
    (hClosingKind : closing.kind = .closeParen) :
    opening.lexeme.count '(' = 1 ∧ closing.lexeme.count '(' = 0 := by
  rw [lexeme_openParen hOpening hOpeningKind, lexeme_closeParen hClosing hClosingKind]
  decide

private theorem count_tokens {b : Bracketed} (hProper : b.Proper)
    (hSpelled : ∀ t ∈ b.tokens, t.Spelled) : (b.tokens.flatMap lexeme).count '(' = b.pairs := by
  induction b with
  | nil => rfl
  | word t rest ih =>
      obtain ⟨hParen, -, hRest⟩ := hProper
      simp only [tokens, List.mem_cons, forall_eq_or_imp] at hSpelled
      rw [tokens, List.flatMap_cons, List.count_append, ih hRest hSpelled.2,
        count_eq_zero (noParen_lexeme hSpelled.1 hParen), Nat.zero_add, pairs]
  | group opening closing inside rest ihInside ih =>
      obtain ⟨hOpening, hClosing, hInside, hRest⟩ := hProper
      simp only [tokens, List.mem_cons, List.mem_append, or_imp, forall_and, forall_eq]
        at hSpelled
      obtain ⟨hO, hI, hC, hR⟩ := hSpelled
      simp only [tokens, List.flatMap_cons, List.flatMap_append, List.count_append,
        ihInside hInside hI, ih hRest hR, count_pair hO hC hOpening hClosing, pairs]
      omega
  | call name opening closing inside rest ihInside ih =>
      obtain ⟨hName, hOpening, hClosing, hInside, hRest⟩ := hProper
      simp only [tokens, List.mem_cons, List.mem_append, or_imp, forall_and, forall_eq]
        at hSpelled
      obtain ⟨hN, hO, hI, hC, hR⟩ := hSpelled
      simp only [tokens, List.flatMap_cons, List.flatMap_append, List.count_append,
        ihInside hInside hI, ih hRest hR, count_pair hO hC hOpening hClosing, pairs,
        count_eq_zero (noParen_lexeme hN (isParen_of_namesFunction hName))]
      omega

/-- **The opening parentheses of a source are those of its pairs.** -/
theorem count_source {source : List Char} {b : Bracketed}
    (hTokens : from? 0 source = .ok b.tokens) (hProper : b.Proper) :
    source.count '(' = b.pairs := by
  rw [← count_tokens hProper (spelled_of_mem hTokens), flatMap_lexeme hTokens]

end Bracketed

end Fluxion
