import Fluxion.Proofs.BracketedItems
import Fluxion.Proofs.Provenance

/-!
# What reaches cover

A reach is counted over the tokens behind a name, up to the partner of the
parenthesis that follows it. It is used to jump over items: a walk that has come
to the name of a call goes on as many items further as the reach says. That the
two fit needs nothing but parentheses that match, whatever the priorities are.
The items that a call covers are the words between its parentheses, so of what
one call covers another one covers all or nothing, and no jump ends in the
middle of a call.

## Main results

* `exists_pair_of_reachOf` — a reach counts the words of a matching pair.
* `laminar_ofTokens` — what a call covers inside of another one ends there.
* `Laminar.jump`, `Laminar.walk` — jumps from outside of all arguments end outside
  of them, and so does a walk of such jumps.
* `represents_of_matched` — what the items of tokens with matching parentheses
  are, and what their reaches cover.
-/

namespace Fluxion

namespace Token

/-! ## Matching pairs -/

/-- The tokens start with an opening parenthesis, and `inside` is all that
stands between it and its partner. -/
def StartsPair (ts inside : List Token) : Prop :=
  ∃ opening closing behind, ts = opening :: (inside ++ closing :: behind) ∧
    opening.kind = .openParen ∧ closing.kind = .closeParen ∧ Matched 0 inside

/-- Tokens whose parentheses match leave as many of them open as there were. -/
theorem matched_append {inside : List Token} (hInside : Matched 0 inside) (opened : Nat)
    (following : List Token) :
    Matched opened (inside ++ following) ↔ Matched opened following := by
  obtain ⟨b, hProper, rfl⟩ := Bracketed.exists_tokens_eq_iff.2 hInside
  exact Bracketed.matched_tokens hProper opened following

/-- Parentheses that match do so from every later point on, with those open
that are open there. -/
theorem matched_behind {opened : Nat} (front : List Token) {back : List Token}
    (hMatched : Matched opened (front ++ back)) : ∃ opened', Matched opened' back := by
  induction front generalizing opened with
  | nil => exact ⟨opened, hMatched⟩
  | cons t front ih =>
      rw [List.cons_append] at hMatched
      by_cases hOpening : t.kind = .openParen
      · exact ih ((Bracketed.matched_openParen hOpening).1 hMatched)
      · by_cases hClosing : t.kind = .closeParen
        · cases opened with
          | zero => exact absurd hMatched (Bracketed.not_matched_closeParen hClosing)
          | succ opened => exact ih ((Bracketed.matched_closeParen hClosing).1 hMatched)
        · have hParen : t.isParen = false := isParen_eq_false_iff.2 ⟨hOpening, hClosing⟩
          exact ih ((Bracketed.matched_word hParen).1 hMatched)

/-- A parenthesis that is open has its partner among the tokens. -/
theorem exists_partner {opened : Nat} {ts : List Token} (hMatched : Matched (opened + 1) ts) :
    ∃ inside closing behind, ts = inside ++ closing :: behind ∧ closing.kind = .closeParen ∧
      Matched 0 inside := by
  obtain ⟨b, _, hProper, rfl, hEnd⟩ :=
    Bracketed.exists_bracketed_front ts.length (le_refl _) hMatched
  obtain ⟨hZero, -⟩ | ⟨_, closing, behind, -, rfl, hClosing, -⟩ := hEnd
  · cases hZero
  · exact ⟨b.tokens, closing, behind, rfl, hClosing,
      Bracketed.exists_tokens_eq_iff.1 ⟨b, hProper, rfl⟩⟩

/-- **A parenthesis has one partner.** -/
theorem StartsPair.unique {ts inside inside' : List Token} (hPair : StartsPair ts inside)
    (hPair' : StartsPair ts inside') : inside = inside' := by
  obtain ⟨opening, closing, behind, rfl, -, hClosing, hInside⟩ := hPair
  obtain ⟨opening', closing', behind', hEq, -, hClosing', hInside'⟩ := hPair'
  -- the closing parenthesis of the shorter pair would have no partner in the longer one
  have hNot {a b : List Token} {t : Token} (ha : Matched 0 a) (ht : t.kind = .closeParen) :
      ¬ Matched 0 (a ++ t :: b) := by
    rw [matched_append ha]
    exact Bracketed.not_matched_closeParen ht
  obtain ⟨-, hEq⟩ := List.cons.inj hEq
  rcases List.append_eq_append_iff.1 hEq with ⟨more, rfl, hTail⟩ | ⟨more, rfl, hTail⟩
  · cases more with
    | nil => rw [List.append_nil]
    | cons t more =>
        obtain ⟨rfl, -⟩ := List.cons.inj hTail
        exact absurd hInside' (hNot hInside hClosing)
  · cases more with
    | nil => rw [List.append_nil]
    | cons t more =>
        obtain ⟨rfl, -⟩ := List.cons.inj hTail
        exact absurd hInside (hNot hInside' hClosing')

theorem StartsPair.length_le {ts inside : List Token} (hPair : StartsPair ts inside) :
    (words inside).length ≤ (words ts).length := by
  obtain ⟨opening, closing, behind, rfl, hOpening, -, -⟩ := hPair
  rw [words_paren (isParen_iff.2 (.inl hOpening)), words_append, List.length_append]
  exact Nat.le_add_right _ _

/-- A word that has more words in front of it than `before` and fewer than
`before` with what is in the middle stands in the middle. -/
private theorem exists_middle {before middle behind front back : List Token} {t : Token}
    (hParen : t.isParen = false) (hEq : before ++ (middle ++ behind) = front ++ t :: back)
    (hLow : (words before).length ≤ (words front).length)
    (hHigh : (words front).length < (words before).length + (words middle).length) :
    ∃ left right, middle = left ++ t :: right ∧ front = before ++ left ∧
      back = right ++ behind := by
  have hFront : ∃ left, front = before ++ left ∧ middle ++ behind = left ++ t :: back := by
    rcases List.append_eq_append_iff.1 hEq with hLonger | ⟨more, rfl, hTail⟩
    · exact hLonger
    · cases more with
      | nil => exact ⟨[], by simp, hTail.symm⟩
      | cons u more =>
          obtain ⟨rfl, -⟩ := List.cons.inj hTail
          rw [words_append, words_word hParen, List.length_append, List.length_cons] at hLow
          omega
  obtain ⟨left, rfl, hRest⟩ := hFront
  rw [words_append, List.length_append] at hHigh
  rcases List.append_eq_append_iff.1 hRest with ⟨more, rfl, -⟩ | ⟨more, rfl, hTail⟩
  · rw [words_append, List.length_append] at hHigh
    omega
  · cases more with
    | nil =>
        rw [List.append_nil] at hHigh
        omega
    | cons u more =>
        obtain ⟨rfl, rfl⟩ := List.cons.inj hTail
        exact ⟨left, more, rfl, rfl, rfl⟩

end Token

namespace Item

open Token

/-! ## What a reach counts -/

/-- The reach of a name in front of a pair is the number of words in it. -/
theorem reachOf_pair {t opening closing : Token} {inside : List Token}
    (hName : t.namesFunction) (hOpening : opening.kind = .openParen)
    (hClosing : closing.kind = .closeParen) (hInside : Matched 0 inside) (behind : List Token) :
    reachOf t (opening :: (inside ++ closing :: behind)) = some (words inside).length := by
  obtain ⟨b, hProper, rfl⟩ := Bracketed.exists_tokens_eq_iff.2 hInside
  rw [Bracketed.reachOf_call hName hOpening hClosing hProper, Bracketed.length_words_tokens hProper]

/-- **A reach counts the words of a matching pair.** It does not look further
than the parentheses do that match. -/
theorem exists_pair_of_reachOf {t : Token} {following behind : List Token} {opened k : Nat}
    (hMatched : Matched opened following)
    (hBehind : ∀ next ∈ behind.head?, next.kind ≠ .openParen)
    (hReach : reachOf t (following ++ behind) = some k) :
    ∃ inside, StartsPair following inside ∧ (words inside).length = k := by
  obtain ⟨hName, next, hNext, hOpening⟩ := called_of_reachOf (Option.isSome_of_eq_some hReach)
  cases following with
  | nil => exact absurd hOpening (hBehind next hNext)
  | cons opening enclosed =>
      obtain rfl : opening = next := by simpa using hNext
      obtain ⟨inside, closing, rest, rfl, hClosing, hInside⟩ :=
        exists_partner ((Bracketed.matched_openParen hOpening).1 hMatched)
      refine ⟨inside, ⟨opening, closing, rest, rfl, hOpening, hClosing, hInside⟩, ?_⟩
      rw [List.cons_append, List.append_assoc, List.cons_append,
        reachOf_pair hName hOpening hClosing hInside] at hReach
      exact Option.some.inj hReach

/-- A token has a reach exactly if it names a function and an opening
parenthesis directly follows. -/
theorem isSome_reachOf_iff {t : Token} {following : List Token} :
    (reachOf t following).isSome ↔
      t.namesFunction ∧ ∃ next ∈ following.head?, next.kind = .openParen := by
  refine ⟨called_of_reachOf, ?_⟩
  rintro ⟨hName, next, hNext, hOpening⟩
  obtain ⟨enclosed, rfl⟩ : ∃ enclosed, following = next :: enclosed := by
    cases following with
    | nil => cases hNext
    | cons first enclosed =>
        obtain rfl : first = next := by simpa using hNext
        exact ⟨enclosed, rfl⟩
  have hCall : t.kind = .name ∧ (Function.ofName? t.text).isSome := by
    simpa [namesFunction] using hName
  rw [reachOf, if_pos ⟨hCall.1, hCall.2, hOpening⟩]
  rfl

/-- The items of tokens are their words. -/
theorem map_token_ofTokens {ts : List Token} {ps : List Int} (hLength : ps.length = ts.length) :
    (ofTokens ts ps).map token = words ts := by
  induction ts generalizing ps with
  | nil => rfl
  | cons t ts ih =>
      cases ps with
      | nil => cases hLength
      | cons p ps =>
          have hRest := ih (Nat.succ.inj hLength)
          rw [ofTokens]
          split
          · next hParen => rw [words_paren hParen, hRest]
          · next hParen =>
              rw [words_word (by simpa using hParen), List.map_cons, hRest]

theorem length_ofTokens {ts : List Token} {ps : List Int} (hLength : ps.length = ts.length) :
    (ofTokens ts ps).length = (words ts).length := by
  rw [← map_token_ofTokens hLength, List.length_map]

/-! ## Positions that calls cover -/

/-- The position lies among the arguments of a call. -/
def InArguments (items : List Item) (position : Nat) : Prop :=
  ∃ i item, items[i]? = some item ∧ i < position ∧ position ≤ i + item.covered

/-- What a call covers inside of what another one covers ends there. -/
def Laminar (items : List Item) : Prop :=
  ∀ (i j : Nat) (outer inner : Item), items[i]? = some outer → items[j]? = some inner →
    i < j → j ≤ i + outer.covered → j + inner.covered ≤ i + outer.covered

namespace Laminar

variable {items : List Item} (hLaminar : Laminar items)
include hLaminar

/-- **A jump from outside of all arguments ends outside of them.** -/
theorem jump {position : Nat} {item : Item} (hItem : items[position]? = some item)
    (hOutside : ¬ InArguments items position) :
    ¬ InArguments items (position + item.extent) := by
  rintro ⟨i, other, hOther, hBehind, hCovered⟩
  rw [extent] at hBehind hCovered
  rcases Nat.lt_trichotomy i position with hLess | rfl | hMore
  · -- a call in front that covers so much covers the position too
    exact hOutside ⟨i, other, hOther, hLess, by omega⟩
  · rw [hItem] at hOther
    cases hOther
    omega
  · have := hLaminar position i item other hItem hOther hMore (by omega)
    omega

private theorem walk_from {skip position : Nat} {front rest : List Item}
    (hEq : items = front ++ rest) (hLength : front.length = position)
    (hOutside : ¬ InArguments items (position + skip)) :
    ∀ placed ∈ topLevelFrom skip position rest, ¬ InArguments items placed.1 := by
  induction rest generalizing skip position front with
  | nil => simp [topLevelFrom]
  | cons item rest ih =>
      have hNext : items = (front ++ [item]) ++ rest := by simp [hEq]
      have hNextLength : (front ++ [item]).length = position + 1 := by simp [hLength]
      cases skip with
      | zero =>
          have hItem : items[position]? = some item := by simp [hEq, ← hLength]
          have hJump := hLaminar.jump hItem hOutside
          rw [topLevelFrom, List.forall_mem_cons]
          refine ⟨hOutside, ih hNext hNextLength ?_⟩
          rwa [Nat.add_assoc]
      | succ skip =>
          refine ih hNext hNextLength ?_
          rwa [Nat.add_assoc, Nat.add_comm 1]

/-- **A walk over the top level stays outside of all arguments.** -/
theorem walk : ∀ placed ∈ topLevel items, ¬ InArguments items placed.1 := by
  refine hLaminar.walk_from (List.nil_append items).symm rfl ?_
  rintro ⟨i, item, -, hBehind, -⟩
  exact Nat.not_lt_zero i hBehind

end Laminar

/-! ## The items of tokens with matching parentheses -/

section

variable {ts : List Token} (hMatched : Matched 0 ts)
include hMatched

/-- What a call covers are the words of the pair behind its name. -/
theorem exists_pair {front following : List Token} {t : Token} {k : Nat}
    (hPlace : ts = front ++ t :: following) (hWord : t.isParen = false)
    (hReach : reachOf t following = some k) :
    ∃ inside, StartsPair following inside ∧ (words inside).length = k := by
  subst hPlace
  obtain ⟨opened, hBehind⟩ := matched_behind front hMatched
  rw [Bracketed.matched_word hWord] at hBehind
  have hEnd : ∀ next ∈ ([] : List Token).head?, next.kind ≠ .openParen := by simp
  rw [← List.append_nil following] at hReach
  exact exists_pair_of_reachOf hBehind hEnd hReach

/-- A call whose name stands between the parentheses of another one counts words
of that pair only. -/
theorem add_le_of_within {front following front' following' : List Token} {t t' : Token}
    {k m : Nat} (hPlace : ts = front ++ t :: following) (hWord : t.isParen = false)
    (hPlace' : ts = front' ++ t' :: following') (hWord' : t'.isParen = false)
    (hReach : reachOf t following = some k) (hReach' : reachOf t' following' = some m)
    (hBehind : (words front).length < (words front').length)
    (hWithin : (words front').length ≤ (words front).length + k) :
    (words front').length + m ≤ (words front).length + k := by
  obtain ⟨inside, ⟨opening, closing, behind, rfl, hOpening, hClosing, hInside⟩, rfl⟩ :=
    exists_pair hMatched hPlace hWord hReach
  have hBefore : (words (front ++ [t, opening])).length = (words front).length + 1 := by
    rw [words_append, words_word hWord, words_paren (isParen_iff.2 (.inl hOpening))]
    simp [words]
  have hSplit : (front ++ [t, opening]) ++ (inside ++ closing :: behind) =
      front' ++ t' :: following' := by
    rw [← hPlace', hPlace]
    simp
  obtain ⟨left, right, rfl, rfl, rfl⟩ := exists_middle hWord' hSplit (by omega) (by omega)
  -- what matches in the outer pair is enough for the inner one
  obtain ⟨opened, hRight⟩ := matched_behind left hInside
  rw [Bracketed.matched_word hWord'] at hRight
  have hStop : ∀ next ∈ (closing :: behind).head?, next.kind ≠ .openParen := by simp [hClosing]
  obtain ⟨inside, hPair, rfl⟩ := exists_pair_of_reachOf hRight hStop hReach'
  have hLength := hPair.length_le
  rw [words_append (front ++ [t, opening]), List.length_append, hBefore, words_append left,
    words_word hWord', List.length_append, List.length_cons]
  omega

/-- **What a call covers inside of another one ends there.** -/
theorem laminar_ofTokens (ps : List Int) : Laminar (ofTokens ts ps) := by
  intro i j outer inner hOuter hInner hBehind hCovered
  obtain ⟨front, following, hPlace, hWord, rfl, -, hReach⟩ := exists_place hOuter
  obtain ⟨front', following', hPlace', hWord', rfl, -, hReach'⟩ := exists_place hInner
  have hOuterCovered : outer.covered = (reachOf outer.token following).getD 0 := by
    rw [covered, hReach]
  have hInnerCovered : inner.covered = (reachOf inner.token following').getD 0 := by
    rw [covered, hReach']
  rw [hOuterCovered] at hCovered ⊢
  rw [hInnerCovered]
  cases hOuterReach : reachOf outer.token following with
  | none =>
      rw [hOuterReach, Option.getD_none] at hCovered
      omega
  | some k =>
      rw [hOuterReach, Option.getD_some] at hCovered
      cases hInnerReach : reachOf inner.token following' with
      | none => exact hCovered
      | some m =>
          exact add_le_of_within hMatched hPlace hWord hPlace' hWord' hOuterReach hInnerReach
            hBehind hCovered

end

/-- The item at a position is made from a token of the list: as many words
stand in front of that token as items in front of the item, it has the same
position among the priorities, and if an opening parenthesis makes it the name
of a call, the items that follow are as many as the words up to the partner of
that parenthesis, and made from these. -/
structure IsMadeFrom (ts : List Token) (ps : List Int) (items : List Item) (i : Nat) (item : Item)
    (front following : List Token) : Prop where
  tokens_eq : ts = front ++ item.token :: following
  position : (words front).length = i
  priority : ps[front.length]? = some item.priority
  called : item.reach.isSome ↔
    item.token.namesFunction ∧ ∃ next ∈ following.head?, next.kind = .openParen
  paired : item.reach.isSome → ∃ inside, StartsPair following inside
  inside : ∀ k, item.reach = some k → i + k < items.length
  arguments : ∀ k inside, item.reach = some k → StartsPair following inside →
    ((items.drop (i + 1)).take k).map token = words inside

/-- The items represent the tokens: they are the words in order, each with the
reach that the parentheses behind it give it, and reaches can be jumped over. -/
structure Represents (ts : List Token) (ps : List Int) (items : List Item) : Prop where
  words : items.map token = words ts
  made : ∀ i item, items[i]? = some item →
    ∃ front following, IsMadeFrom ts ps items i item front following
  laminar : Laminar items
  jump : ∀ i item, items[i]? = some item → ¬ InArguments items i →
    ¬ InArguments items (i + item.extent)
  walk : ∀ placed ∈ topLevel items, ¬ InArguments items placed.1

section

variable {ts : List Token} {ps : List Int} (hLength : ps.length = ts.length)
include hLength

/-- The items behind the name of a call are the words of its pair. -/
private theorem take_of_pair {front inside : List Token} {t opening closing : Token}
    {behind : List Token} (hWord : t.isParen = false) (hOpening : opening.kind = .openParen)
    (hClosing : closing.kind = .closeParen)
    (hPlace : ts = front ++ t :: opening :: (inside ++ closing :: behind)) :
    (words front).length + (words inside).length < (ofTokens ts ps).length ∧
      (((ofTokens ts ps).drop ((words front).length + 1)).take (words inside).length).map token =
        words inside := by
  have hWords : words ts = (words front ++ [t]) ++ (words inside ++ words behind) := by
    rw [hPlace, words_append, words_word hWord, words_paren (isParen_iff.2 (.inl hOpening)),
      words_append, words_paren (isParen_iff.2 (.inr hClosing)), List.append_assoc,
      List.singleton_append]
  have hFront : (words front ++ [t]).length = (words front).length + 1 := by simp
  constructor
  · rw [length_ofTokens hLength, hWords, List.length_append, hFront, List.length_append]
    omega
  · rw [List.map_take, List.map_drop, map_token_ofTokens hLength, hWords,
      List.drop_left' hFront, List.take_left' rfl]

theorem exists_isMadeFrom (hMatched : Matched 0 ts) {i : Nat} {item : Item}
    (hItem : (ofTokens ts ps)[i]? = some item) :
    ∃ front following, IsMadeFrom ts ps (ofTokens ts ps) i item front following := by
  obtain ⟨front, following, hPlace, hWord, rfl, hPriority, hReach⟩ := exists_place hItem
  have hCall : ∀ k, item.reach = some k → ∃ inside, StartsPair following inside ∧
      (words front).length + k < (ofTokens ts ps).length ∧
      (((ofTokens ts ps).drop ((words front).length + 1)).take k).map token = words inside := by
    intro k hReached
    obtain ⟨inside, hPair, rfl⟩ := exists_pair hMatched hPlace hWord (hReach ▸ hReached)
    obtain ⟨opening, closing, behind, rfl, hOpening, hClosing, -⟩ := id hPair
    exact ⟨inside, hPair, take_of_pair hLength hWord hOpening hClosing hPlace⟩
  refine ⟨front, following, hPlace, rfl, hPriority, hReach ▸ isSome_reachOf_iff, ?_, ?_, ?_⟩
  · intro hReached
    obtain ⟨k, hReached⟩ := Option.isSome_iff_exists.1 hReached
    obtain ⟨inside, hPair, -⟩ := hCall k hReached
    exact ⟨inside, hPair⟩
  · intro k hReached
    obtain ⟨_, -, hInside, -⟩ := hCall k hReached
    exact hInside
  · intro k inside hReached hPair
    obtain ⟨inside', hPair', -, hTake⟩ := hCall k hReached
    rw [hTake, hPair.unique hPair']

/-- **The items of tokens with matching parentheses represent them**, whatever
the priorities are. -/
theorem represents_of_matched (hMatched : Matched 0 ts) : Represents ts ps (ofTokens ts ps) where
  words := map_token_ofTokens hLength
  made _ _ := exists_isMadeFrom hLength hMatched
  laminar := laminar_ofTokens hMatched ps
  jump _ _ := (laminar_ofTokens hMatched ps).jump
  walk := (laminar_ofTokens hMatched ps).walk

end

/-- In `log(sin((x)),2)+f(y)` two of the names are called. -/
theorem represents_of_matched_nested :
    let t (kind : Kind) (text : String) : Token := ⟨kind, text.toList, ⟨0, 0⟩⟩
    let opening := t .openParen "("
    let closing := t .closeParen ")"
    let ts := [t .name "log", opening, t .name "sin", opening, opening, t .name "x", closing,
      closing, t .comma ",", t .number "2", closing, t .operator "+", t .name "f", opening,
      t .name "y", closing]
    let ps : List Int := [4, 1, 4, 1, 5, 9, 2, 6, 5, 3, 5, 8, 9, 7, 9, 3]
    Matched 0 ts ∧ ps.length = ts.length ∧
      (ofTokens ts ps).map reach = [some 4, some 1, none, none, none, none, none, none] ∧
      Represents ts ps (ofTokens ts ps) := by
  intro t opening closing ts ps
  have hMatched : Matched 0 ts := by simp [ts, t, opening, closing, Matched]
  have hLength : ps.length = ts.length := rfl
  have hReaches : (ofTokens ts ps).map reach =
      [some 4, some 1, none, none, none, none, none, none] := by decide +kernel
  exact ⟨hMatched, hLength, hReaches, represents_of_matched hLength hMatched⟩

end Item

end Fluxion
