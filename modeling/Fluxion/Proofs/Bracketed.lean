import Fluxion.Proofs.Grammar
import Fluxion.Proofs.Lexing
import Fluxion.Item.Basic
import Fluxion.Token.Priority

/-!
# Tokens with their parentheses matched

A sequence of tokens whose parentheses match is a tree: a pair of parentheses
holds a sequence of its own. `Bracketed` is that tree, with the pairs that
belong to calls kept apart from those that only group. Depth, reach and
priority, which are counted along the tokens, are read off it by recursion on
its structure, so that no later argument has to match parentheses again.

## Main results

* `countEnclosed_tokens`, `reachOf_call` — a call reaches as far as the tokens
  inside its parentheses.
* `prioritized_tokens`, `tooDeep_tokens` — bracketed tokens have priorities
  exactly if they are not too high.
-/

namespace Fluxion

open Token Item

namespace Token

theorem isParen_iff {t : Token} :
    t.isParen = true ↔ t.kind = .openParen ∨ t.kind = .closeParen := by
  cases hKind : t.kind <;> simp [Token.isParen, Kind.isParen, hKind]

theorem isParen_eq_false_iff {t : Token} :
    t.isParen = false ↔ t.kind ≠ .openParen ∧ t.kind ≠ .closeParen := by
  rw [← Bool.not_eq_true, isParen_iff, not_or]

/-- Whether the token is the name of a function. -/
def namesFunction (t : Token) : Bool :=
  t.kind == .name && (Function.ofName? t.text).isSome

/-- The tokens that are no parentheses. -/
def words (ts : List Token) : List Token :=
  ts.filter (!·.isParen)

@[simp] theorem words_append (front back : List Token) :
    words (front ++ back) = words front ++ words back :=
  List.filter_append front back

theorem words_word {t : Token} (hParen : t.isParen = false) (ts : List Token) :
    words (t :: ts) = t :: words ts := by
  simp [words, hParen]

theorem words_paren {t : Token} (hParen : t.isParen = true) (ts : List Token) :
    words (t :: ts) = words ts := by
  simp [words, hParen]

/-- Every parenthesis among the tokens has a partner, when `opened` ones are
open in front of them and none behind. -/
def Matched (opened : Nat) : List Token → Prop
  | [] => opened = 0
  | t :: rest =>
    match t.kind with
    | .openParen => Matched (opened + 1) rest
    | .closeParen =>
      match opened with
      | 0 => False
      | opened + 1 => Matched opened rest
    | .number | .operator | .name | .comma => Matched opened rest

end Token

/-- A sequence of tokens with its parentheses matched. -/
inductive Bracketed where
  | nil
  /-- A token that is no parenthesis, and what follows. -/
  | word (t : Token) (rest : Bracketed)
  /-- A pair of parentheses that groups, and what follows. -/
  | group (opening closing : Token) (inside rest : Bracketed)
  /-- A call, and what follows. -/
  | call (name opening closing : Token) (inside rest : Bracketed)

namespace Bracketed

/-! ## Reading off a bracketed sequence -/

/-- The tokens, parentheses included. -/
def tokens : Bracketed → List Token
  | nil => []
  | word t rest => t :: rest.tokens
  | group opening closing inside rest => opening :: (inside.tokens ++ closing :: rest.tokens)
  | call name opening closing inside rest =>
    name :: opening :: (inside.tokens ++ closing :: rest.tokens)

/-- The number of tokens other than parentheses. -/
def size : Bracketed → Nat
  | nil => 0
  | word _ rest => rest.size + 1
  | group _ _ inside rest => inside.size + rest.size
  | call _ _ _ inside rest => inside.size + rest.size + 1

/-- The most pairs of parentheses inside each other. -/
def height : Bracketed → Nat
  | nil => 0
  | word _ rest => rest.height
  | group _ _ inside rest => max (inside.height + 1) rest.height
  | call _ _ _ inside rest => max (inside.height + 1) rest.height

/-- The items, when `depth` pairs of parentheses are open around the whole. -/
def items (depth : Nat) : Bracketed → List Item
  | nil => []
  | word t rest => ⟨t, priorityAt depth t, none⟩ :: rest.items depth
  | group _ _ inside rest => inside.items (depth + 1) ++ rest.items depth
  | call name _ _ inside rest =>
    ⟨name, priorityAt depth name, some inside.size⟩
      :: (inside.items (depth + 1) ++ rest.items depth)

/-- One sequence behind another. -/
def append : Bracketed → Bracketed → Bracketed
  | nil, b => b
  | word t rest, b => word t (rest.append b)
  | group opening closing inside rest, b => group opening closing inside (rest.append b)
  | call name opening closing inside rest, b => call name opening closing inside (rest.append b)

instance : Append Bracketed := ⟨append⟩

/-- Whether the sequence starts with a grouping pair. -/
def startsGroup : Bracketed → Bool
  | group .. => true
  | nil | word .. | call .. => false

/-- Parentheses stand where parentheses are meant, and a pair belongs to a
call exactly if it directly follows the name of a function. -/
def Proper : Bracketed → Prop
  | nil => True
  | word t rest =>
    t.isParen = false ∧ (t.namesFunction → rest.startsGroup = false) ∧ rest.Proper
  | group opening closing inside rest =>
    opening.kind = .openParen ∧ closing.kind = .closeParen ∧ inside.Proper ∧ rest.Proper
  | call name opening closing inside rest =>
    name.namesFunction ∧ opening.kind = .openParen ∧ closing.kind = .closeParen ∧ inside.Proper
      ∧ rest.Proper

/-- A sequence without words has no tokens but parentheses. -/
theorem isParen_of_size_eq_zero {b : Bracketed} (hProper : b.Proper) (hSize : b.size = 0) :
    ∀ t ∈ b.tokens, t.isParen := by
  induction b with
  | nil => simp [tokens]
  | word t rest => cases hSize
  | group opening closing inside rest ihInside ih =>
      obtain ⟨hOpening, hClosing, hInside, hRest⟩ := hProper
      have hEmpty := Nat.add_eq_zero_iff.1 hSize
      simp only [tokens, List.mem_cons, List.mem_append, or_imp, forall_and, forall_eq]
      exact ⟨isParen_iff.2 (.inl hOpening), ihInside hInside hEmpty.1,
        isParen_iff.2 (.inr hClosing), ih hRest hEmpty.2⟩
  | call name opening closing inside rest => cases hSize

/-! ## Putting sequences together -/

@[simp] theorem nil_append (b : Bracketed) : nil ++ b = b := rfl

@[simp] theorem word_append (t : Token) (a b : Bracketed) : word t a ++ b = word t (a ++ b) := rfl

@[simp] theorem group_append (opening closing : Token) (inside a b : Bracketed) :
    group opening closing inside a ++ b = group opening closing inside (a ++ b) := rfl

@[simp] theorem call_append (name opening closing : Token) (inside a b : Bracketed) :
    call name opening closing inside a ++ b = call name opening closing inside (a ++ b) := rfl

@[simp] theorem append_nil (b : Bracketed) : b ++ nil = b := by
  induction b with
  | nil => rfl
  | word t rest ih => simp [ih]
  | group _ _ inside rest _ ih => simp [ih]
  | call _ _ _ inside rest _ ih => simp [ih]

theorem append_assoc (a b c : Bracketed) : a ++ b ++ c = a ++ (b ++ c) := by
  induction a with
  | nil => rfl
  | word t rest ih => simp [ih]
  | group _ _ inside rest _ ih => simp [ih]
  | call _ _ _ inside rest _ ih => simp [ih]

@[simp] theorem tokens_append (a b : Bracketed) : (a ++ b).tokens = a.tokens ++ b.tokens := by
  induction a with
  | nil => rfl
  | word t rest ih => simp [tokens, ih]
  | group _ _ inside rest _ ih => simp [tokens, ih]
  | call _ _ _ inside rest _ ih => simp [tokens, ih]

@[simp] theorem items_append (depth : Nat) (a b : Bracketed) :
    (a ++ b).items depth = a.items depth ++ b.items depth := by
  induction a with
  | nil => rfl
  | word t rest ih => simp [items, ih]
  | group _ _ inside rest _ ih => simp [items, ih]
  | call _ _ _ inside rest _ ih => simp [items, ih]

@[simp] theorem length_items (depth : Nat) (b : Bracketed) : (b.items depth).length = b.size := by
  induction b generalizing depth with
  | nil => rfl
  | word t rest ih => simp [items, size, ih]
  | group _ _ inside rest ihInside ih => simp [items, size, ihInside, ih]
  | call _ _ _ inside rest ihInside ih => simp [items, size, ihInside, ih]

theorem height_append (a b : Bracketed) : (a ++ b).height = max a.height b.height := by
  induction a with
  | nil => exact (Nat.zero_max b.height).symm
  | word t rest ih => simpa [height] using ih
  | group opening closing inside rest _ ih => simp [height, ih, Nat.max_assoc]
  | call name opening closing inside rest _ ih => simp [height, ih, Nat.max_assoc]

/-- Two proper sequences make a proper one, unless a function's name meets a
grouping pair in between. -/
theorem Proper.append {a b : Bracketed} (ha : a.Proper) (hb : b.Proper)
    (hApart : b.startsGroup = false) : (a ++ b).Proper := by
  induction a with
  | nil => exact hb
  | word t rest ih =>
      obtain ⟨hParen, hCall, hRest⟩ := ha
      refine ⟨hParen, fun hNames => ?_, ih hRest⟩
      cases rest with
      | nil => exact hApart
      | word t rest => rfl
      | group opening closing inside rest => exact hCall hNames
      | call name opening closing inside rest => rfl
  | group opening closing inside rest _ ih =>
      obtain ⟨hOpening, hClosing, hInside, hRest⟩ := ha
      exact ⟨hOpening, hClosing, hInside, ih hRest⟩
  | call name opening closing inside rest _ ih =>
      obtain ⟨hName, hOpening, hClosing, hInside, hRest⟩ := ha
      exact ⟨hName, hOpening, hClosing, hInside, ih hRest⟩

theorem Proper.of_append {a b : Bracketed} (hProper : (a ++ b).Proper) :
    a.Proper ∧ b.Proper := by
  induction a with
  | nil => exact ⟨trivial, hProper⟩
  | word t rest ih =>
      obtain ⟨hParen, hCall, hRest⟩ := hProper
      refine ⟨⟨hParen, fun hNames => ?_, (ih hRest).1⟩, (ih hRest).2⟩
      cases rest with
      | nil => rfl
      | word t rest => rfl
      | group opening closing inside rest => exact hCall hNames
      | call name opening closing inside rest => rfl
  | group opening closing inside rest _ ih =>
      obtain ⟨hOpening, hClosing, hInside, hRest⟩ := hProper
      exact ⟨⟨hOpening, hClosing, hInside, (ih hRest).1⟩, (ih hRest).2⟩
  | call name opening closing inside rest _ ih =>
      obtain ⟨hName, hOpening, hClosing, hInside, hRest⟩ := hProper
      exact ⟨⟨hName, hOpening, hClosing, hInside, (ih hRest).1⟩, (ih hRest).2⟩

/-! ## Counting along the tokens -/

section

variable {t : Token} (depth : Nat) (rest : List Token)

private theorem countEnclosed_word (hParen : t.isParen = false) :
    countEnclosed depth (t :: rest) = countEnclosed depth rest + 1 := by
  cases hKind : t.kind <;> simp_all [countEnclosed, Token.isParen, Kind.isParen]

private theorem countEnclosed_openParen (hKind : t.kind = .openParen) :
    countEnclosed depth (t :: rest) = countEnclosed (depth + 1) rest := by
  simp [countEnclosed, hKind]

private theorem countEnclosed_closeParen (hKind : t.kind = .closeParen) :
    countEnclosed (depth + 1) (t :: rest) = countEnclosed depth rest := by
  simp [countEnclosed, hKind]

end

section

variable {t : Token} {opened : Nat} {rest : List Token}

theorem matched_word (hParen : t.isParen = false) :
    Matched opened (t :: rest) ↔ Matched opened rest := by
  cases hKind : t.kind <;> simp_all [Matched, Token.isParen, Kind.isParen]

theorem matched_openParen (hKind : t.kind = .openParen) :
    Matched opened (t :: rest) ↔ Matched (opened + 1) rest := by
  simp [Matched, hKind]

theorem matched_closeParen (hKind : t.kind = .closeParen) :
    Matched (opened + 1) (t :: rest) ↔ Matched opened rest := by
  simp [Matched, hKind]

theorem not_matched_closeParen (hKind : t.kind = .closeParen) : ¬ Matched 0 (t :: rest) := by
  simp [Matched, hKind]

end

theorem isParen_of_namesFunction {t : Token} (hName : t.namesFunction) : t.isParen = false := by
  simp only [namesFunction, Bool.and_eq_true, beq_iff_eq] at hName
  simp [isParen_eq_false_iff, hName.1]

/-- A bracketed sequence has no parenthesis without a partner. -/
theorem matched_tokens {b : Bracketed} (hProper : b.Proper) (opened : Nat)
    (following : List Token) :
    Matched opened (b.tokens ++ following) ↔ Matched opened following := by
  induction b generalizing opened following with
  | nil => rfl
  | word t rest ih =>
      obtain ⟨hParen, -, hRest⟩ := hProper
      rw [tokens, List.cons_append, matched_word hParen, ih hRest]
  | group opening closing inside rest ihInside ih =>
      obtain ⟨hOpening, hClosing, hInside, hRest⟩ := hProper
      rw [tokens, List.cons_append, List.append_assoc, List.cons_append,
        matched_openParen hOpening, ihInside hInside, matched_closeParen hClosing, ih hRest]
  | call name opening closing inside rest ihInside ih =>
      obtain ⟨hName, hOpening, hClosing, hInside, hRest⟩ := hProper
      rw [tokens, List.cons_append, List.cons_append, List.append_assoc, List.cons_append,
        matched_word (isParen_of_namesFunction hName), matched_openParen hOpening,
        ihInside hInside, matched_closeParen hClosing, ih hRest]

/-- Counting over a bracketed sequence counts its words. -/
theorem countEnclosed_tokens {b : Bracketed} (hProper : b.Proper) (depth : Nat)
    (following : List Token) :
    countEnclosed depth (b.tokens ++ following) = b.size + countEnclosed depth following := by
  induction b generalizing depth following with
  | nil => simp [tokens, size]
  | word t rest ih =>
      obtain ⟨hParen, -, hRest⟩ := hProper
      rw [tokens, List.cons_append, countEnclosed_word _ _ hParen, ih hRest, size]
      omega
  | group opening closing inside rest ihInside ih =>
      obtain ⟨hOpening, hClosing, hInside, hRest⟩ := hProper
      rw [tokens, List.cons_append, List.append_assoc, List.cons_append,
        countEnclosed_openParen _ _ hOpening, ihInside hInside,
        countEnclosed_closeParen _ _ hClosing, ih hRest, size]
      omega
  | call name opening closing inside rest ihInside ih =>
      obtain ⟨hName, hOpening, hClosing, hInside, hRest⟩ := hProper
      rw [tokens, List.cons_append, List.cons_append, List.append_assoc, List.cons_append,
        countEnclosed_word _ _ (isParen_of_namesFunction hName),
        countEnclosed_openParen _ _ hOpening, ihInside hInside,
        countEnclosed_closeParen _ _ hClosing, ih hRest, size]
      omega

/-- The words of a bracketed sequence are as many as its size says. -/
theorem length_words_tokens {b : Bracketed} (hProper : b.Proper) :
    (words b.tokens).length = b.size := by
  induction b with
  | nil => rfl
  | word t rest ih => rw [tokens, words_word hProper.1, List.length_cons, ih hProper.2.2, size]
  | group opening closing inside rest ihInside ih =>
      obtain ⟨hOpening, hClosing, hInside, hRest⟩ := hProper
      rw [tokens, words_paren (isParen_iff.2 (.inl hOpening)), words_append,
        words_paren (isParen_iff.2 (.inr hClosing)), List.length_append, ihInside hInside,
        ih hRest, size]
  | call name opening closing inside rest ihInside ih =>
      obtain ⟨hName, hOpening, hClosing, hInside, hRest⟩ := hProper
      rw [tokens, words_word (isParen_of_namesFunction hName),
        words_paren (isParen_iff.2 (.inl hOpening)), words_append,
        words_paren (isParen_iff.2 (.inr hClosing)), List.length_cons, List.length_append,
        ihInside hInside, ih hRest, size]

/-- The reach of the name of a call is what its parentheses hold. -/
theorem reachOf_call {name opening closing : Token} {inside : Bracketed}
    (hName : name.namesFunction) (hOpening : opening.kind = .openParen)
    (hClosing : closing.kind = .closeParen) (hInside : inside.Proper) (following : List Token) :
    reachOf name (opening :: (inside.tokens ++ closing :: following)) = some inside.size := by
  have hNames : name.kind = .name ∧ (Function.ofName? name.text).isSome := by
    simpa [namesFunction] using hName
  have hEnd : countEnclosed 0 (closing :: following) = 0 := by
    simp [countEnclosed, hClosing]
  rw [reachOf, if_pos ⟨hNames.1, hNames.2, hOpening⟩, countEnclosed_tokens hInside, hEnd,
    Nat.add_zero]

/-- A token has no reach if no opening parenthesis follows or it names no
function. -/
theorem reachOf_eq_none {t : Token} {following : List Token}
    (hPlain : t.namesFunction → ∀ next ∈ following.head?, next.kind ≠ .openParen) :
    reachOf t following = none := by
  cases following with
  | nil => rfl
  | cons next enclosed =>
      rw [reachOf, if_neg]
      rintro ⟨hKind, hName, hOpening⟩
      exact hPlain (by simp [namesFunction, hKind, hName]) next rfl hOpening

/-- A sequence that does not start with a group starts with no opening
parenthesis. -/
theorem head?_tokens_append {b : Bracketed} (hProper : b.Proper) (hGroup : b.startsGroup = false)
    {following : List Token} (hFollowing : ∀ next ∈ following.head?, next.kind ≠ .openParen) :
    ∀ next ∈ (b.tokens ++ following).head?, next.kind ≠ .openParen := by
  cases b with
  | nil => exact hFollowing
  | word t rest =>
      have hParen := hProper.1
      intro next hNext hKind
      obtain rfl : t = next := by simpa [tokens] using hNext
      simp [Token.isParen, Kind.isParen, hKind] at hParen
  | group opening closing inside rest => cases hGroup
  | call name opening closing inside rest =>
      have hName := hProper.1
      intro next hNext hKind
      obtain rfl : name = next := by simpa [tokens] using hNext
      simp [namesFunction, hKind] at hName

/-! ## Priorities, one token at a time -/

section

variable {opened : List Span} {t : Token} {rest : List Token} {ps : List Int}

theorem prioritiesInside_word (hParen : t.isParen = false) :
    prioritiesInside opened (t :: rest) = prioritiesInside opened rest >>= fun following =>
      .ok (priorityAt opened.length t :: following) := by
  cases hKind : t.kind <;> simp_all [prioritiesInside, Token.isParen, Kind.isParen] <;> rfl

theorem prioritiesInside_openParen (hKind : t.kind = .openParen) :
    prioritiesInside opened (t :: rest) =
      if opened.length < maxNesting then
        prioritiesInside (t.span :: opened) rest >>= fun following =>
          .ok (priorityAt (opened.length + 1) t :: following)
      else .error ⟨t.span, .nestingTooDeep maxNesting⟩ := by
  simp only [prioritiesInside, hKind]
  rfl

theorem prioritiesInside_closeParen {innermost : Span} (hKind : t.kind = .closeParen) :
    prioritiesInside (innermost :: opened) (t :: rest) =
      prioritiesInside opened rest >>= fun following =>
        .ok (priorityAt opened.length t :: following) := by
  simp only [prioritiesInside, hKind]
  rfl

theorem prioritiesInside_closeParen_nil (hKind : t.kind = .closeParen) :
    prioritiesInside [] (t :: rest) = .error ⟨t.span, .unclosedParenthesis false⟩ := by
  simp only [prioritiesInside, hKind]

end

/-! ## Priorities of a bracketed sequence -/

/-- The tokens have priorities inside the given parentheses, whatever follows
them. -/
def Prioritized (opened : List Span) (ts : List Token) : Prop :=
  ∃ ps, ∀ following, prioritiesInside opened (ts ++ following) =
    prioritiesInside opened following >>= fun qs => .ok (ps ++ qs)

/-- The tokens go too deep inside the given parentheses, whatever follows
them. -/
def TooDeep (opened : List Span) (ts : List Token) : Prop :=
  ∃ span, ∀ following, prioritiesInside opened (ts ++ following) =
    .error ⟨span, .nestingTooDeep maxNesting⟩

section

variable {opened : List Span}

private theorem prioritized_nil : Prioritized opened [] := by
  refine ⟨[], fun following => ?_⟩
  show prioritiesInside opened following = _
  cases prioritiesInside opened following <;> rfl

private theorem prioritized_word {t : Token} {ts : List Token} (hParen : t.isParen = false)
    (hRest : Prioritized opened ts) : Prioritized opened (t :: ts) := by
  obtain ⟨ps, hps⟩ := hRest
  refine ⟨priorityAt opened.length t :: ps, fun following => ?_⟩
  rw [List.cons_append, prioritiesInside_word hParen, hps]
  cases prioritiesInside opened following <;> rfl

private theorem tooDeep_word {t : Token} {ts : List Token} (hParen : t.isParen = false)
    (hRest : TooDeep opened ts) : TooDeep opened (t :: ts) := by
  obtain ⟨span, hSpan⟩ := hRest
  refine ⟨span, fun following => ?_⟩
  rw [List.cons_append, prioritiesInside_word hParen, hSpan]
  rfl

variable {opening closing : Token} {inside rest : List Token}
  (hOpening : opening.kind = .openParen) (hClosing : closing.kind = .closeParen)
include hOpening hClosing

private theorem prioritized_pair (hRoom : opened.length < maxNesting)
    (hInside : Prioritized (opening.span :: opened) inside) (hRest : Prioritized opened rest) :
    Prioritized opened (opening :: (inside ++ closing :: rest)) := by
  obtain ⟨inner, hInner⟩ := hInside
  obtain ⟨outer, hOuter⟩ := hRest
  refine ⟨priorityAt (opened.length + 1) opening
    :: (inner ++ priorityAt opened.length closing :: outer), fun following => ?_⟩
  rw [List.cons_append, List.append_assoc, List.cons_append, prioritiesInside_openParen hOpening,
    if_pos hRoom, hInner, prioritiesInside_closeParen hClosing, hOuter]
  cases prioritiesInside opened following with
  | error e => rfl
  | ok qs =>
      show Except.ok _ = Except.ok _
      simp

omit hClosing in
private theorem tooDeep_opening (hRoom : ¬ opened.length < maxNesting) :
    TooDeep opened (opening :: (inside ++ closing :: rest)) := by
  refine ⟨opening.span, fun following => ?_⟩
  rw [List.cons_append, prioritiesInside_openParen hOpening, if_neg hRoom]

omit hClosing in
private theorem tooDeep_inside (hRoom : opened.length < maxNesting)
    (hInside : TooDeep (opening.span :: opened) inside) :
    TooDeep opened (opening :: (inside ++ closing :: rest)) := by
  obtain ⟨span, hSpan⟩ := hInside
  refine ⟨span, fun following => ?_⟩
  rw [List.cons_append, List.append_assoc, prioritiesInside_openParen hOpening, if_pos hRoom,
    hSpan]
  rfl

private theorem tooDeep_behind (hRoom : opened.length < maxNesting)
    (hInside : Prioritized (opening.span :: opened) inside) (hRest : TooDeep opened rest) :
    TooDeep opened (opening :: (inside ++ closing :: rest)) := by
  obtain ⟨inner, hInner⟩ := hInside
  obtain ⟨span, hSpan⟩ := hRest
  refine ⟨span, fun following => ?_⟩
  rw [List.cons_append, List.append_assoc, List.cons_append, prioritiesInside_openParen hOpening,
    if_pos hRoom, hInner, prioritiesInside_closeParen hClosing, hSpan]
  rfl

end

/-- Bracketed tokens that are not too high have priorities. -/
theorem prioritized_tokens {b : Bracketed} (hProper : b.Proper) {opened : List Span}
    (hHeight : opened.length + b.height ≤ maxNesting) : Prioritized opened b.tokens := by
  induction b generalizing opened with
  | nil => exact prioritized_nil
  | word t rest ih =>
      obtain ⟨hParen, -, hRest⟩ := hProper
      exact prioritized_word hParen (ih hRest hHeight)
  | group opening closing inside rest ihInside ih =>
      obtain ⟨hOpening, hClosing, hInside, hRest⟩ := hProper
      rw [height] at hHeight
      refine prioritized_pair hOpening hClosing (by omega) (ihInside hInside ?_)
        (ih hRest (by omega))
      rw [List.length_cons]
      omega
  | call name opening closing inside rest ihInside ih =>
      obtain ⟨hName, hOpening, hClosing, hInside, hRest⟩ := hProper
      rw [height] at hHeight
      refine prioritized_word (isParen_of_namesFunction hName)
        (prioritized_pair hOpening hClosing (by omega) (ihInside hInside ?_)
          (ih hRest (by omega)))
      rw [List.length_cons]
      omega

/-- A pair of parentheses goes too deep where it opens, inside, or behind it. -/
private theorem tooDeep_pair {opened : List Span} {opening closing : Token}
    {inside rest : Bracketed} (hOpening : opening.kind = .openParen)
    (hClosing : closing.kind = .closeParen) (hProper : inside.Proper)
    (hHeight : maxNesting < opened.length + max (inside.height + 1) rest.height)
    (hInside : (opening.span :: opened).length ≤ maxNesting →
      maxNesting < (opening.span :: opened).length + inside.height →
      TooDeep (opening.span :: opened) inside.tokens)
    (hRest : maxNesting < opened.length + rest.height → TooDeep opened rest.tokens) :
    TooDeep opened (opening :: (inside.tokens ++ closing :: rest.tokens)) := by
  rw [List.length_cons] at hInside
  by_cases hRoom : opened.length < maxNesting
  · by_cases hInner : maxNesting < opened.length + 1 + inside.height
    · exact tooDeep_inside hOpening hRoom (hInside (by omega) hInner)
    · refine tooDeep_behind hOpening hClosing hRoom (prioritized_tokens hProper ?_)
        (hRest (by omega))
      rw [List.length_cons]
      omega
  · exact tooDeep_opening hOpening hRoom

/-- Bracketed tokens that are too high are refused. -/
theorem tooDeep_tokens {b : Bracketed} (hProper : b.Proper) {opened : List Span}
    (hOpened : opened.length ≤ maxNesting) (hHeight : maxNesting < opened.length + b.height) :
    TooDeep opened b.tokens := by
  induction b generalizing opened with
  | nil =>
      rw [height] at hHeight
      omega
  | word t rest ih =>
      obtain ⟨hParen, -, hRest⟩ := hProper
      exact tooDeep_word hParen (ih hRest hOpened hHeight)
  | group opening closing inside rest ihInside ih =>
      obtain ⟨hOpening, hClosing, hInside, hRest⟩ := hProper
      exact tooDeep_pair hOpening hClosing hInside hHeight (ihInside hInside) (ih hRest hOpened)
  | call name opening closing inside rest ihInside ih =>
      obtain ⟨hName, hOpening, hClosing, hInside, hRest⟩ := hProper
      exact tooDeep_word (isParen_of_namesFunction hName)
        (tooDeep_pair hOpening hClosing hInside hHeight (ihInside hInside) (ih hRest hOpened))

end Bracketed

end Fluxion
