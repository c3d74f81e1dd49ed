import Fluxion.Proofs.Bracketed

/-!
# Priorities encode depths

Priorities are handed out along the tokens, with a stack of the parentheses
that are open. What comes of it can be said without the stack, by counting: how
many more parentheses open than close in each front part of the list. As long
as these counts stay between none and nineteen every token gets the priority of
its own strength and its depth, and the order of the priorities is that of the
depths first. The first count outside of these bounds decides the refusal, and
if there is none the last parenthesis whose count is never reached again.

## Main results

* `prioritiesInside_append` — the run over a front part whose counts stay in
  bounds.
* `foldl_track_append`, `length_foldl_track` — what is on the stack is known
  from the counts.
* `balanced_or_refused` — the counts decide between success and the ways to
  fail.
* `priorities_encode_depth` — which lists have priorities, which ones these are,
  and how the others are refused.
-/

namespace Fluxion.Token

open Bracketed

/-! ## Counting parentheses -/

/-- How many more parentheses open than close among the tokens. -/
def excess (ts : List Token) : Int :=
  ts.countP (·.kind = .openParen) - ts.countP (·.kind = .closeParen)

/-- The depth of the token at a position: the parentheses open there, with an
opening one counted as open already and a closing one as closed. -/
def depthAt (ts : List Token) (i : Nat) : Int :=
  excess (ts.take (i + 1))

/-- A number of open parentheses that priorities can tell apart. -/
def InBounds (depth : Int) : Prop :=
  0 ≤ depth ∧ depth ≤ 19

/-- In no front part do more parentheses close than open, or open that are not
closed than nineteen, and in the whole as many close as open. -/
structure Balanced (ts : List Token) : Prop where
  inBounds : ∀ n, InBounds (excess (ts.take n))
  excess_eq : excess ts = 0

/-- The parenthesis at a position opens, and behind it there are always more
parentheses open than in front of it. -/
def Unclosed (ts : List Token) (i : Nat) : Prop :=
  (∃ t, ts[i]? = some t ∧ t.kind = .openParen) ∧
    ∀ n, i < n → excess (ts.take i) < excess (ts.take n)

@[simp] theorem excess_nil : excess [] = 0 := rfl

theorem excess_append (front back : List Token) :
    excess (front ++ back) = excess front + excess back := by
  simp only [excess, List.countP_append]
  omega

theorem excess_cons (t : Token) (ts : List Token) : excess (t :: ts) = excess [t] + excess ts :=
  excess_append [t] ts

theorem excess_take_cons (t : Token) (ts : List Token) (n : Nat) :
    excess ((t :: ts).take (n + 1)) = excess [t] + excess (ts.take n) := by
  rw [List.take_succ_cons, excess_cons]

theorem depthAt_of_getElem? {ts : List Token} {i : Nat} {t : Token} (hToken : ts[i]? = some t) :
    depthAt ts i = excess (ts.take i) + excess [t] := by
  rw [depthAt, List.take_add_one, hToken, excess_append, Option.toList_some]

section

variable {t : Token}

theorem excess_openParen (hKind : t.kind = .openParen) : excess [t] = 1 := by
  simp [excess, hKind]

theorem excess_closeParen (hKind : t.kind = .closeParen) : excess [t] = -1 := by
  simp [excess, hKind]

theorem excess_word (hParen : t.isParen = false) : excess [t] = 0 := by
  obtain ⟨hOpening, hClosing⟩ := isParen_eq_false_iff.1 hParen
  simp [excess, hOpening, hClosing]

/-- A token opens, closes or does neither. -/
theorem excess_cases (t : Token) :
    (excess [t] = 1 ∧ t.kind = .openParen) ∨ (excess [t] = -1 ∧ t.kind = .closeParen) ∨
      (excess [t] = 0 ∧ t.isParen = false) := by
  cases hKind : t.kind with
  | openParen => exact .inl ⟨excess_openParen hKind, rfl⟩
  | closeParen => exact .inr (.inl ⟨excess_closeParen hKind, rfl⟩)
  | number | operator | name | comma =>
      have hParen : t.isParen = false := by rw [Token.isParen, hKind]; rfl
      exact .inr (.inr ⟨excess_word hParen, hParen⟩)

/-- Only an opening parenthesis raises the count. -/
theorem kind_eq_openParen (hExcess : 0 < excess [t]) : t.kind = .openParen := by
  rcases excess_cases t with ⟨-, hKind⟩ | ⟨hLess, -⟩ | ⟨hSame, -⟩
  · exact hKind
  · omega
  · omega

/-- Only a closing parenthesis lowers the count. -/
theorem kind_eq_closeParen (hExcess : excess [t] < 0) : t.kind = .closeParen := by
  rcases excess_cases t with ⟨hMore, -⟩ | ⟨-, hKind⟩ | ⟨hSame, -⟩
  · omega
  · exact hKind
  · omega

end

/-! ## The stack -/

/-- The open parentheses behind a token, innermost first. -/
def track (opened : List Span) (t : Token) : List Span :=
  match t.kind with
  | .openParen => t.span :: opened
  | .closeParen => opened.tail
  | .number | .operator | .name | .comma => opened

section

variable {opened : List Span} {t : Token}

theorem track_openParen (hKind : t.kind = .openParen) : track opened t = t.span :: opened := by
  simp [track, hKind]

theorem track_closeParen (hKind : t.kind = .closeParen) : track opened t = opened.tail := by
  simp [track, hKind]

theorem track_word (hParen : t.isParen = false) : track opened t = opened := by
  cases hKind : t.kind <;> simp_all [track, Token.isParen, Kind.isParen]

/-- As long as nothing is closed that is not open, the stack is as high as the
count says, and what lies below it does not matter. -/
theorem track_append (hOpened : 0 ≤ opened.length + excess [t]) (outer : List Span) :
    track (opened ++ outer) t = track opened t ++ outer ∧
      ((track opened t).length : Int) = opened.length + excess [t] := by
  rcases excess_cases t with ⟨hExcess, hKind⟩ | ⟨hExcess, hKind⟩ | ⟨hExcess, hParen⟩
  · simp [track_openParen hKind, hExcess]
  · rw [hExcess] at hOpened ⊢
    obtain ⟨innermost, below, rfl⟩ : ∃ innermost below, opened = innermost :: below :=
      List.exists_cons_of_length_pos (by omega)
    simp [track_closeParen hKind]
  · simp [track_word hParen, hExcess]

end

section

variable {opened : List Span} {ts : List Token}

/-- A condition on the counts of all front parts is one on the first token and
one on the front parts behind it. -/
private theorem forall_excess_take_cons {P : Int → Prop} {depth : Int} {t : Token}
    (hAll : ∀ n, P (depth + excess ((t :: ts).take n))) :
    P (depth + excess [t]) ∧ ∀ n, P (depth + excess [t] + excess (ts.take n)) := by
  have hBehind : ∀ n, P (depth + excess [t] + excess (ts.take n)) := by
    intro n
    have hNext := hAll (n + 1)
    rwa [excess_take_cons, ← Int.add_assoc] at hNext
  exact ⟨by simpa using hBehind 0, hBehind⟩

/-- What lies below the stack comes out as it went in. -/
theorem foldl_track_append (hOpened : ∀ n, 0 ≤ opened.length + excess (ts.take n))
    (outer : List Span) :
    ts.foldl track (opened ++ outer) = ts.foldl track opened ++ outer := by
  induction ts generalizing opened with
  | nil => rfl
  | cons t ts ih =>
      obtain ⟨hFirst, hBehind⟩ := forall_excess_take_cons hOpened
      obtain ⟨hStep, hLength⟩ := track_append hFirst outer
      rw [← hLength] at hBehind
      rw [List.foldl_cons, hStep, ih hBehind, List.foldl_cons]

/-- The stack is as high as the count says. -/
theorem length_foldl_track (hOpened : ∀ n, 0 ≤ opened.length + excess (ts.take n)) :
    ((ts.foldl track opened).length : Int) = opened.length + excess ts := by
  induction ts generalizing opened with
  | nil => simp
  | cons t ts ih =>
      obtain ⟨hFirst, hBehind⟩ := forall_excess_take_cons hOpened
      obtain ⟨-, hLength⟩ := track_append hFirst []
      rw [← hLength] at hBehind
      rw [List.foldl_cons, ih hBehind, hLength, excess_cons t ts, Int.add_assoc]

/-- Tokens that close whatever they open leave the stack as it was. -/
theorem foldl_track_of_even (hOpened : ∀ n, 0 ≤ excess (ts.take n)) (hEven : excess ts = 0)
    (outer : List Span) : ts.foldl track outer = outer := by
  have hOpened' : ∀ n, 0 ≤ (([] : List Span).length : Int) + excess (ts.take n) := by
    simpa using hOpened
  have hLength := length_foldl_track hOpened'
  have hEmpty : ts.foldl track [] = [] :=
    List.eq_nil_of_length_eq_zero (by simpa [hEven] using hLength)
  have hBelow := foldl_track_append hOpened' outer
  rwa [hEmpty, List.nil_append] at hBelow

end

/-! ## The run -/

/-- The priorities that tokens have by their strength and their depth, when
`depth` parentheses are open in front of them. -/
def encodedFrom (depth : Int) (ts : List Token) : List Int :=
  ts.mapIdx fun i t => t.basePriority + 50 * (depth + depthAt ts i)

/-- The priorities that tokens have by their strength and their depth. -/
def encoded (ts : List Token) : List Int :=
  ts.mapIdx fun i t => t.basePriority + 50 * depthAt ts i

theorem encodedFrom_zero (ts : List Token) : encodedFrom 0 ts = encoded ts := by
  simp only [encodedFrom, encoded, Int.zero_add]

theorem encodedFrom_cons (depth : Int) (t : Token) (ts : List Token) :
    encodedFrom depth (t :: ts) =
      (t.basePriority + 50 * (depth + excess [t])) :: encodedFrom (depth + excess [t]) ts := by
  simp only [encodedFrom, List.mapIdx_cons, depthAt, excess_take_cons, List.take_zero, excess_nil,
    Int.add_zero, Int.add_assoc]

section

variable {opened : List Span} {t : Token}

/-- **One token**: if the depth stays in bounds, the token gets its priority and
the stack follows. -/
theorem prioritiesInside_cons (hBounds : InBounds (opened.length + excess [t]))
    (rest : List Token) :
    prioritiesInside opened (t :: rest) =
      prioritiesInside (track opened t) rest >>= fun following =>
        .ok ((t.basePriority + 50 * (opened.length + excess [t])) :: following) := by
  obtain ⟨hLow, hHigh⟩ := hBounds
  rcases excess_cases t with ⟨hExcess, hKind⟩ | ⟨hExcess, hKind⟩ | ⟨hExcess, hParen⟩
  · rw [hExcess] at hHigh ⊢
    have hRoom : opened.length < maxNesting := by rw [maxNesting_eq]; omega
    rw [prioritiesInside_openParen hKind, if_pos hRoom, track_openParen hKind, priorityAt]
    simp [nestingStep]
  · rw [hExcess] at hLow ⊢
    obtain ⟨innermost, outer, rfl⟩ : ∃ innermost outer, opened = innermost :: outer :=
      List.exists_cons_of_length_pos (by omega)
    rw [prioritiesInside_closeParen hKind, track_closeParen hKind, priorityAt]
    simp [nestingStep]
  · rw [hExcess, prioritiesInside_word hParen, track_word hParen, priorityAt]
    simp [nestingStep]

/-- **The run** over a front part whose counts stay in bounds. -/
theorem prioritiesInside_append {front : List Token}
    (hBounds : ∀ n, InBounds (opened.length + excess (front.take n))) (behind : List Token) :
    prioritiesInside opened (front ++ behind) =
      prioritiesInside (front.foldl track opened) behind >>= fun following =>
        .ok (encodedFrom opened.length front ++ following) := by
  induction front generalizing opened with
  | nil =>
      rw [List.nil_append, List.foldl_nil]
      cases prioritiesInside opened behind <;> rfl
  | cons t front ih =>
      obtain ⟨hFirst, hBehind⟩ := forall_excess_take_cons hBounds
      obtain ⟨-, hLength⟩ := track_append hFirst.1 []
      rw [← hLength] at hBehind
      rw [List.cons_append, prioritiesInside_cons hFirst, ih hBehind, List.foldl_cons, hLength,
        encodedFrom_cons]
      cases prioritiesInside (front.foldl track (track opened t)) behind <;> rfl

end

section

variable {ts : List Token} {i : Nat} {t : Token}

private theorem eq_take_append_cons (hToken : ts[i]? = some t) :
    ts = ts.take i ++ t :: ts.drop (i + 1) := by
  obtain ⟨hInside, rfl⟩ := List.getElem?_eq_some_iff.1 hToken
  rw [← List.drop_eq_getElem_cons hInside, List.take_append_drop]

/-- The run from the start up to a token. -/
private theorem priorities_at (hBounds : ∀ n ≤ i, InBounds (excess (ts.take n)))
    (hToken : ts[i]? = some t) :
    ∃ opened : List Span, opened.length = excess (ts.take i) ∧
      priorities ts = prioritiesInside opened (t :: ts.drop (i + 1)) >>= fun following =>
        .ok (encoded (ts.take i) ++ following) := by
  have hFront : ∀ n, InBounds ((([] : List Span).length : Int) + excess ((ts.take i).take n)) := by
    intro n
    have hTake := hBounds (min n i) (min_le_right n i)
    simpa [List.take_take] using hTake
  refine ⟨(ts.take i).foldl track [], ?_, ?_⟩
  · simpa using length_foldl_track fun n => (hFront n).1
  · conv_lhs => rw [eq_take_append_cons hToken]
    rw [priorities, prioritiesInside_append hFront]
    simp [encodedFrom_zero]

end

/-! ## The last parenthesis that is not closed -/

/-- If more parentheses open than close there is a last one that is not closed,
and behind it as many close as open. -/
theorem exists_last_unclosed {ts : List Token} (hExcess : 0 < excess ts) :
    ∃ i, Unclosed ts i ∧ (∀ j, i < j → ¬ Unclosed ts j) ∧ excess (ts.take (i + 1)) = excess ts := by
  -- the last front part whose count is below that of the whole
  have hLow : ∃ i ≤ ts.length, excess (ts.take i) < excess ts ∧
      ∀ n, i < n → n ≤ ts.length → excess ts ≤ excess (ts.take n) := by
    let P : Nat → Prop := fun n => excess (ts.take n) < excess ts
    have : DecidablePred P := fun n => inferInstanceAs (Decidable (_ < _))
    have hZero : P 0 := by simpa [P] using hExcess
    refine ⟨Nat.findGreatest P ts.length, Nat.findGreatest_le _,
      Nat.findGreatest_spec (Nat.zero_le _) hZero, fun n hBehind hLength => ?_⟩
    exact not_lt.1 (Nat.findGreatest_is_greatest hBehind hLength)
  obtain ⟨i, hLength, hBelow, hAbove⟩ := hLow
  have hInside : i < ts.length := by
    refine lt_of_le_of_ne hLength fun hEnd => ?_
    rw [hEnd, List.take_length] at hBelow
    exact lt_irrefl _ hBelow
  have hAll : ∀ n, i < n → excess ts ≤ excess (ts.take n) := by
    intro n hBehind
    rcases le_total n ts.length with hn | hn
    · exact hAbove n hBehind hn
    · rw [List.take_of_length_le hn]
  have hToken : ts[i]? = some ts[i] := List.getElem?_eq_getElem hInside
  have hStep : excess (ts.take (i + 1)) = excess (ts.take i) + excess [ts[i]] :=
    depthAt_of_getElem? hToken
  have hNext := hAll (i + 1) (Nat.lt_succ_self i)
  -- the token between the two counts opens, and raises the count by one
  have hKind : ts[i].kind = .openParen := kind_eq_openParen (by omega)
  have hOne := excess_openParen hKind
  refine ⟨i, ⟨⟨_, hToken, hKind⟩, fun n hBehind => ?_⟩, ?_, by omega⟩
  · exact hBelow.trans_le (hAll n hBehind)
  · rintro j hBehind ⟨⟨u, hu, -⟩, hLower⟩
    obtain ⟨hEnd, -⟩ := List.getElem?_eq_some_iff.1 hu
    have hWhole := hLower ts.length hEnd
    rw [List.take_length] at hWhole
    exact absurd (hAll j hBehind) (not_le.2 hWhole)

section

variable {ts : List Token} {i : Nat} (hUnclosed : Unclosed ts i)
  (hLast : ∀ j, i < j → ¬ Unclosed ts j)
include hUnclosed

/-- Behind a parenthesis that is not closed nothing below it is closed either. -/
theorem Unclosed.behind (n : Nat) : 0 ≤ excess ((ts.drop (i + 1)).take n) := by
  obtain ⟨⟨t, hToken, hKind⟩, hAbove⟩ := hUnclosed
  have hDepth : depthAt ts i = excess (ts.take i) + 1 := by
    rw [depthAt_of_getElem? hToken, excess_openParen hKind]
  have hSplit : excess (ts.take (i + 1 + n)) =
      depthAt ts i + excess ((ts.drop (i + 1)).take n) := by
    rw [List.take_add, excess_append, depthAt]
  have hHigher := hAbove (i + 1 + n) (by omega)
  omega

include hLast

/-- Behind the last parenthesis that is not closed as many close as open. -/
theorem excess_behind_last (hStart : 0 ≤ excess (ts.take i)) :
    excess (ts.drop (i + 1)) = 0 := by
  have hWhole : excess ts = depthAt ts i + excess (ts.drop (i + 1)) := by
    rw [depthAt, ← excess_append, List.take_append_drop]
  have hPositive : 0 < excess ts := by
    obtain ⟨⟨t, hToken, -⟩, hAbove⟩ := hUnclosed
    obtain ⟨hInside, -⟩ := List.getElem?_eq_some_iff.1 hToken
    have hEnd := hAbove ts.length hInside
    rw [List.take_length] at hEnd
    omega
  obtain ⟨last, hUnclosed', hNone, hLevel⟩ := exists_last_unclosed hPositive
  obtain rfl : last = i := by
    rcases lt_trichotomy last i with hLess | hSame | hMore
    · exact absurd hUnclosed (hNone i hLess)
    · exact hSame
    · exact absurd hUnclosed' (hLast last hMore)
  rw [depthAt, hLevel] at hWhole
  omega

/-- **The top of the stack** at the end is the last parenthesis that is not
closed. -/
theorem head?_foldl_track {t : Token} (hStart : 0 ≤ excess (ts.take i))
    (hToken : ts[i]? = some t) : (ts.foldl track []).head? = some t.span := by
  obtain ⟨⟨opening, hOpening, hKind⟩, -⟩ := id hUnclosed
  obtain rfl : opening = t := Option.some.inj (hOpening.symm.trans hToken)
  have hBelow := foldl_track_of_even hUnclosed.behind (excess_behind_last hUnclosed hLast hStart)
    (opening.span :: (ts.take i).foldl track [])
  rw [eq_take_append_cons hToken, List.foldl_append, List.foldl_cons, track_openParen hKind, hBelow]
  rfl

end

/-! ## The ways to fail -/

/-- How tokens are refused. -/
inductive Refused (ts : List Token) : ParseError → Prop
  /-- The first count that is out of bounds is too high: an opening parenthesis
  goes too deep. -/
  | tooDeep {i : Nat} {t : Token} (hToken : ts[i]? = some t) (hKind : t.kind = .openParen)
      (hBounds : ∀ n ≤ i, InBounds (excess (ts.take n))) (hDeep : 19 < depthAt ts i) :
      Refused ts ⟨t.span, .nestingTooDeep 19⟩
  /-- The first count that is out of bounds is too low: a closing parenthesis
  has no partner. -/
  | unopened {i : Nat} {t : Token} (hToken : ts[i]? = some t) (hKind : t.kind = .closeParen)
      (hBounds : ∀ n ≤ i, InBounds (excess (ts.take n))) (hLow : depthAt ts i < 0) :
      Refused ts ⟨t.span, .unclosedParenthesis false⟩
  /-- All counts are in bounds: the last opening parenthesis without a partner
  is to blame. -/
  | unclosed {i : Nat} {t : Token} (hToken : ts[i]? = some t)
      (hBounds : ∀ n, InBounds (excess (ts.take n))) (hUnclosed : Unclosed ts i)
      (hLast : ∀ j, i < j → ¬ Unclosed ts j) :
      Refused ts ⟨t.span, .unclosedParenthesis true⟩

/-- The counts decide: they are balanced or there is a way to fail. -/
theorem balanced_or_refused (ts : List Token) : Balanced ts ∨ ∃ err, Refused ts err := by
  by_cases hBounds : ∀ n, InBounds (excess (ts.take n))
  · have hWhole := hBounds ts.length
    rw [List.take_length] at hWhole
    rcases hWhole.1.eq_or_lt with hEven | hExcess
    · exact .inl ⟨hBounds, hEven.symm⟩
    · obtain ⟨i, hUnclosed, hLast, -⟩ := exists_last_unclosed hExcess
      obtain ⟨⟨t, hToken, hKind⟩, -⟩ := id hUnclosed
      exact .inr ⟨_, .unclosed hToken hBounds hUnclosed hLast⟩
  · -- the first front part that is out of bounds ends in the token to blame
    have hBroken : ∃ n, ¬ InBounds (excess (ts.take n)) := not_forall.1 hBounds
    classical
    obtain ⟨n, hFirst, hBefore⟩ : ∃ n, ¬ InBounds (excess (ts.take n)) ∧
        ∀ m < n, InBounds (excess (ts.take m)) :=
      ⟨Nat.find hBroken, Nat.find_spec hBroken, fun m hm => not_not.1 (Nat.find_min hBroken hm)⟩
    obtain ⟨i, rfl⟩ : ∃ i, n = i + 1 := by
      refine Nat.exists_eq_succ_of_ne_zero ?_
      rintro rfl
      exact hFirst (by simp [InBounds])
    have hFront : ∀ m ≤ i, InBounds (excess (ts.take m)) := fun m hm =>
      hBefore m (Nat.lt_succ_of_le hm)
    obtain ⟨t, hToken⟩ : ∃ t, ts[i]? = some t := by
      by_contra! hNone
      have hEnd : ts.length ≤ i :=
        List.getElem?_eq_none_iff.1 (Option.eq_none_iff_forall_ne_some.2 hNone)
      rw [List.take_of_length_le (by omega), ← List.take_of_length_le hEnd] at hFirst
      exact hFirst (hFront i le_rfl)
    have hDepth := depthAt_of_getElem? hToken
    obtain ⟨hLow, hHigh⟩ := hFront i le_rfl
    rw [← depthAt, InBounds, not_and_or, not_le, not_le] at hFirst
    rcases hFirst with hBelow | hAbove
    · exact .inr ⟨_, .unopened hToken (kind_eq_closeParen (by omega)) hFront hBelow⟩
    · exact .inr ⟨_, .tooDeep hToken (kind_eq_openParen (by omega)) hFront hAbove⟩

/-! ## What the run makes of the counts -/

section

variable {ts : List Token}

private theorem inBounds_take (hBounds : ∀ n, InBounds (excess (ts.take n))) (n : Nat) :
    InBounds ((([] : List Span).length : Int) + excess (ts.take n)) := by
  simpa using hBounds n

/-- The run over a whole list whose counts stay in bounds. -/
private theorem priorities_eq_end (hBounds : ∀ n, InBounds (excess (ts.take n))) :
    priorities ts = prioritiesInside (ts.foldl track []) [] >>= fun following =>
      .ok (encoded ts ++ following) := by
  have hRun := prioritiesInside_append (inBounds_take hBounds) []
  rw [List.append_nil] at hRun
  rw [priorities, hRun, List.length_nil, Nat.cast_zero, encodedFrom_zero]

theorem priorities_of_balanced (hBalanced : Balanced ts) : priorities ts = .ok (encoded ts) := by
  have hEmpty : ts.foldl track [] = [] :=
    foldl_track_of_even (fun n => (hBalanced.inBounds n).1) hBalanced.excess_eq []
  rw [priorities_eq_end hBalanced.inBounds, hEmpty]
  show Except.ok (encoded ts ++ []) = _
  rw [List.append_nil]

theorem priorities_of_refused {err : ParseError} (hRefused : Refused ts err) :
    priorities ts = .error err := by
  cases hRefused with
  | tooDeep hToken hKind hBounds hDeep =>
      obtain ⟨opened, hOpened, hRun⟩ := priorities_at hBounds hToken
      rw [depthAt_of_getElem? hToken, excess_openParen hKind] at hDeep
      have hRoom : ¬ opened.length < maxNesting := by rw [maxNesting_eq]; omega
      rw [hRun, prioritiesInside_openParen hKind, if_neg hRoom, maxNesting_eq]
      rfl
  | unopened hToken hKind hBounds hLow =>
      obtain ⟨opened, hOpened, hRun⟩ := priorities_at hBounds hToken
      rw [depthAt_of_getElem? hToken, excess_closeParen hKind] at hLow
      obtain rfl : opened = [] := List.eq_nil_of_length_eq_zero (by omega)
      rw [hRun, prioritiesInside_closeParen_nil hKind]
      rfl
  | unclosed hToken hBounds hUnclosed hLast =>
      have hTop := head?_foldl_track hUnclosed hLast (hBounds _).1 hToken
      obtain ⟨outer, hOpened⟩ := List.head?_eq_some_iff.1 hTop
      rw [priorities_eq_end hBounds, hOpened]
      rfl

end

/-! ## The order of the priorities -/

/-- Priorities tell operators from operands, and of two operators the deeper and
then the stronger one. -/
structure Faithful (ts : List Token) (ps : List Int) : Prop where
  operator_lt_operand : ∀ {i j : Nat} {t u : Token} {op : Operator} {p q : Int},
    ts[i]? = some t → t.operator? = some op → ps[i]? = some p →
      ts[j]? = some u → u.operator? = none → ps[j]? = some q → p < q
  operator_lt_iff : ∀ {i j : Nat} {t u : Token} {a b : Operator} {p q : Int},
    ts[i]? = some t → t.operator? = some a → ps[i]? = some p →
      ts[j]? = some u → u.operator? = some b → ps[j]? = some q →
        (p < q ↔
          depthAt ts i < depthAt ts j ∨ depthAt ts i = depthAt ts j ∧ a.priority < b.priority)

theorem encoded_getElem? {ts : List Token} {i : Nat} {t : Token} (hToken : ts[i]? = some t) :
    (encoded ts)[i]? = some (t.basePriority + 50 * depthAt ts i) := by
  rw [encoded, List.getElem?_mapIdx, hToken]
  rfl

theorem basePriority_operator {t : Token} {op : Operator} (hOperator : t.operator? = some op) :
    t.basePriority = op.priority := by
  rw [basePriority, hOperator]

theorem basePriority_operand {t : Token} (hOperand : t.operator? = none) :
    t.basePriority = 1000 := by
  rw [basePriority, hOperand]
  rfl

theorem faithful_of_balanced {ts : List Token} (hBalanced : Balanced ts) :
    Faithful ts (encoded ts) where
  operator_lt_operand := by
    intro i j t u op p q hToken hOperator hp hOther hOperand hq
    rw [encoded_getElem? hToken, basePriority_operator hOperator] at hp
    rw [encoded_getElem? hOther, basePriority_operand hOperand] at hq
    have hDepth : depthAt ts i ≤ 19 := (hBalanced.inBounds (i + 1)).2
    have hDepth' : 0 ≤ depthAt ts j := (hBalanced.inBounds (j + 1)).1
    have hStrength := op.priority_bounds.2
    cases hp
    cases hq
    push_cast
    omega
  operator_lt_iff := by
    intro i j t u a b p q hToken hOperator hp hOther hOperator' hq
    rw [encoded_getElem? hToken, basePriority_operator hOperator] at hp
    rw [encoded_getElem? hOther, basePriority_operator hOperator'] at hq
    have hStrength := a.priority_bounds
    have hStrength' := b.priority_bounds
    cases hp
    cases hq
    omega

theorem priorities_eq_ok_iff {ts : List Token} {ps : List Int} :
    priorities ts = .ok ps ↔ Balanced ts ∧ ps = encoded ts := by
  constructor
  · intro hRun
    rcases balanced_or_refused ts with hBalanced | ⟨err, hRefused⟩
    · rw [priorities_of_balanced hBalanced] at hRun
      exact ⟨hBalanced, (Except.ok.inj hRun).symm⟩
    · cases hRun.symm.trans (priorities_of_refused hRefused)
  · rintro ⟨hBalanced, rfl⟩
    exact priorities_of_balanced hBalanced

theorem priorities_eq_error_iff {ts : List Token} {err : ParseError} :
    priorities ts = .error err ↔ Refused ts err := by
  refine ⟨fun hRun => ?_, priorities_of_refused⟩
  rcases balanced_or_refused ts with hBalanced | ⟨err', hRefused⟩
  · cases hRun.symm.trans (priorities_of_balanced hBalanced)
  · cases hRun.symm.trans (priorities_of_refused hRefused)
    exact hRefused

/-- **Priorities encode depths**: exactly the balanced lists have priorities,
one for each token, that give its strength and its depth and are ordered by
depth first. Every other list is refused for its first count out of bounds, or
else for the last parenthesis that is not closed. -/
theorem priorities_encode_depth (ts : List Token) :
    (∀ ps, priorities ts = .ok ps ↔ Balanced ts ∧ ps = encoded ts) ∧
      (∀ ps, priorities ts = .ok ps → ps.length = ts.length ∧ Faithful ts ps) ∧
      (∀ err, priorities ts = .error err ↔ Refused ts err) := by
  refine ⟨fun ps => priorities_eq_ok_iff, fun ps hRun => ?_, fun err => priorities_eq_error_iff⟩
  obtain ⟨hBalanced, rfl⟩ := priorities_eq_ok_iff.1 hRun
  exact ⟨List.length_mapIdx, faithful_of_balanced hBalanced⟩

/-- In `(x)` the parentheses lie at different depths; in `(x` the opening one is
to blame. -/
theorem priorities_encode_depth_pair :
    let opening : Token := ⟨.openParen, ['('], ⟨0, 1⟩⟩
    let inside : Token := ⟨.name, ['x'], ⟨1, 2⟩⟩
    let closing : Token := ⟨.closeParen, [')'], ⟨2, 3⟩⟩
    priorities [opening, inside, closing] = .ok [1050, 1050, 1000] ∧
      Balanced [opening, inside, closing] ∧
      Faithful [opening, inside, closing] [1050, 1050, 1000] ∧
      Refused [opening, inside] ⟨⟨0, 1⟩, .unclosedParenthesis true⟩ := by
  intro opening inside closing
  have hRun : priorities [opening, inside, closing] = .ok [1050, 1050, 1000] := rfl
  have hOpen : priorities [opening, inside] = .error ⟨⟨0, 1⟩, .unclosedParenthesis true⟩ := rfl
  obtain ⟨hBalanced, hFaithful, -⟩ := priorities_encode_depth [opening, inside, closing]
  exact ⟨hRun, ((hBalanced _).1 hRun).1, (hFaithful _ hRun).2,
    ((priorities_encode_depth [opening, inside]).2.2 _).1 hOpen⟩

end Fluxion.Token
