import Fluxion.Expr.Parse
import Fluxion.Proofs.Bracketed
import Fluxion.Proofs.Outcome

/-!
# Sources as bracketed sequences

Every source that gets as far as items is a bracketed sequence, and its items
are the ones read off that sequence. From here on a source is known by the
structure of its parentheses.

## Main results

* `Bracketed.exists_tokens_eq_iff` — tokens are bracketed if and only if their
  parentheses match.
* `Bracketed.exists_of_itemsOf?` — a source with items is bracketed.
* `Bracketed.itemsOf?_eq`, `Bracketed.itemsOf?_tooDeep` — the items of a
  bracketed source, and its refusal if it is too high.
* `Bracketed.nesting_source` — the height of a bracketed source is the nesting
  of its text.
-/

namespace Fluxion.Bracketed

open Token Item

/-! ## Items -/

section

variable {opened : List Span} {t : Token} {rest : List Token} {ps : List Int}

private theorem ofTokens_word (hParen : t.isParen = false)
    (hps : prioritiesInside opened (t :: rest) = .ok ps) :
    ∃ qs, prioritiesInside opened rest = .ok qs ∧
      ofTokens (t :: rest) ps =
        ⟨t, priorityAt opened.length t, reachOf t rest⟩ :: ofTokens rest qs := by
  rw [prioritiesInside_word hParen] at hps
  obtain ⟨qs, hqs, hEq⟩ := bind_eq_ok_iff.1 hps
  cases hEq
  refine ⟨qs, hqs, ?_⟩
  rw [ofTokens, if_neg (by simp [hParen])]

private theorem ofTokens_openParen (hKind : t.kind = .openParen)
    (hps : prioritiesInside opened (t :: rest) = .ok ps) :
    ∃ qs, prioritiesInside (t.span :: opened) rest = .ok qs ∧
      ofTokens (t :: rest) ps = ofTokens rest qs := by
  rw [prioritiesInside_openParen hKind] at hps
  split at hps
  · obtain ⟨qs, hqs, hEq⟩ := bind_eq_ok_iff.1 hps
    cases hEq
    refine ⟨qs, hqs, ?_⟩
    rw [ofTokens, if_pos (by simp [Token.isParen, Kind.isParen, hKind])]
  · cases hps

private theorem ofTokens_closeParen {innermost : Span} (hKind : t.kind = .closeParen)
    (hps : prioritiesInside (innermost :: opened) (t :: rest) = .ok ps) :
    ∃ qs, prioritiesInside opened rest = .ok qs ∧
      ofTokens (t :: rest) ps = ofTokens rest qs := by
  rw [prioritiesInside_closeParen hKind] at hps
  obtain ⟨qs, hqs, hEq⟩ := bind_eq_ok_iff.1 hps
  cases hEq
  refine ⟨qs, hqs, ?_⟩
  rw [ofTokens, if_pos (by simp [Token.isParen, Kind.isParen, hKind])]

end

/-- The items of bracketed tokens come first among those of the tokens they
start, unless a function's name at the end is called behind them. -/
private theorem ofTokens_tokens {b : Bracketed} (hProper : b.Proper) {opened : List Span}
    {following : List Token} {ps : List Int}
    (hps : prioritiesInside opened (b.tokens ++ following) = .ok ps)
    (hFollowing : ∀ next ∈ following.head?, next.kind ≠ .openParen) :
    ∃ qs, prioritiesInside opened following = .ok qs ∧
      ofTokens (b.tokens ++ following) ps = b.items opened.length ++ ofTokens following qs := by
  induction b generalizing opened following ps with
  | nil => exact ⟨ps, hps, rfl⟩
  | word t rest ih =>
      obtain ⟨hParen, hCall, hRest⟩ := hProper
      rw [tokens, List.cons_append] at hps ⊢
      obtain ⟨qs, hqs, hItems⟩ := ofTokens_word hParen hps
      obtain ⟨rs, hrs, hTail⟩ := ih hRest hqs hFollowing
      have hReach : reachOf t (rest.tokens ++ following) = none :=
        reachOf_eq_none fun hNames => head?_tokens_append hRest (hCall hNames) hFollowing
      refine ⟨rs, hrs, ?_⟩
      rw [hItems, hReach, hTail]
      rfl
  | group opening closing inside rest ihInside ih =>
      obtain ⟨hOpening, hClosing, hInside, hRest⟩ := hProper
      rw [tokens, List.cons_append, List.append_assoc, List.cons_append] at hps ⊢
      obtain ⟨ps₁, hps₁, hItems⟩ := ofTokens_openParen hOpening hps
      obtain ⟨ps₂, hps₂, hInner⟩ := ihInside hInside hps₁ (by simp [hClosing])
      obtain ⟨ps₃, hps₃, hClosed⟩ := ofTokens_closeParen hClosing hps₂
      obtain ⟨qs, hqs, hTail⟩ := ih hRest hps₃ hFollowing
      refine ⟨qs, hqs, ?_⟩
      rw [hItems, hInner, hClosed, hTail, items, List.append_assoc, List.length_cons]
  | call name opening closing inside rest ihInside ih =>
      obtain ⟨hName, hOpening, hClosing, hInside, hRest⟩ := hProper
      rw [tokens, List.cons_append, List.cons_append, List.append_assoc, List.cons_append]
        at hps ⊢
      obtain ⟨ps₀, hps₀, hFirst⟩ := ofTokens_word (isParen_of_namesFunction hName) hps
      obtain ⟨ps₁, hps₁, hItems⟩ := ofTokens_openParen hOpening hps₀
      obtain ⟨ps₂, hps₂, hInner⟩ := ihInside hInside hps₁ (by simp [hClosing])
      obtain ⟨ps₃, hps₃, hClosed⟩ := ofTokens_closeParen hClosing hps₂
      obtain ⟨qs, hqs, hTail⟩ := ih hRest hps₃ hFollowing
      refine ⟨qs, hqs, ?_⟩
      rw [hFirst, reachOf_call hName hOpening hClosing hInside, hItems, hInner, hClosed, hTail,
        items, List.cons_append, List.append_assoc, List.length_cons]

/-! ## Matched tokens are bracketed -/

/-- Puts a token that is no parenthesis in front. If it names a function and a
group follows, the group becomes its arguments. -/
private theorem exists_word {t : Token} (hParen : t.isParen = false) {b : Bracketed}
    (hProper : b.Proper) : ∃ b' : Bracketed, b'.Proper ∧ b'.tokens = t :: b.tokens := by
  by_cases hCall : t.namesFunction ∧ b.startsGroup = true
  · cases b with
    | group opening closing inside rest => exact ⟨call t opening closing inside rest,
        ⟨hCall.1, hProper⟩, rfl⟩
    | nil => cases hCall.2
    | word t rest => cases hCall.2
    | call name opening closing inside rest => cases hCall.2
  · refine ⟨word t b, ⟨hParen, fun hNames => ?_, hProper⟩, rfl⟩
    by_contra hGroup
    exact hCall ⟨hNames, by simpa using hGroup⟩

/-- Tokens that match inside some parentheses start with a bracketed
sequence, and either end with it or go on with the closing parenthesis of the
innermost pair. -/
theorem exists_bracketed_front (n : Nat) : ∀ {opened : Nat} {ts : List Token},
    ts.length ≤ n → Matched opened ts →
    ∃ (b : Bracketed) (following : List Token), b.Proper ∧ ts = b.tokens ++ following ∧
      ((opened = 0 ∧ following = []) ∨
        ∃ outer closing rest, opened = outer + 1 ∧ following = closing :: rest ∧
          closing.kind = .closeParen ∧ Matched outer rest) := by
  induction n with
  | zero =>
      intro opened ts hLength hMatched
      obtain rfl : ts = [] := List.length_eq_zero_iff.1 (by omega)
      exact ⟨nil, [], trivial, rfl, .inl ⟨hMatched, rfl⟩⟩
  | succ n ih =>
      intro opened ts hLength hMatched
      cases ts with
      | nil => exact ⟨nil, [], trivial, rfl, .inl ⟨hMatched, rfl⟩⟩
      | cons t ts =>
          have hShort : ts.length ≤ n := by simpa using hLength
          by_cases hOpening : t.kind = .openParen
          · -- what the parenthesis encloses, and what follows its partner
            rw [matched_openParen hOpening] at hMatched
            obtain ⟨inside, _, hInside, rfl, hEnd⟩ := ih hShort hMatched
            obtain ⟨hZero, -⟩ | ⟨_, closing, rest, hEq, rfl, hClosing, hRest⟩ := hEnd
            · cases hZero
            · cases hEq
              obtain ⟨b, following, hProper, rfl, hEnd⟩ := ih (by
                simp only [List.length_append, List.length_cons] at hShort
                omega) hRest
              exact ⟨group t closing inside b, following, ⟨hOpening, hClosing, hInside, hProper⟩,
                by simp [tokens], hEnd⟩
          · by_cases hClosing : t.kind = .closeParen
            · cases opened with
              | zero => exact absurd hMatched (not_matched_closeParen hClosing)
              | succ outer =>
                  rw [matched_closeParen hClosing] at hMatched
                  exact ⟨nil, t :: ts, trivial, rfl,
                    .inr ⟨outer, t, ts, rfl, rfl, hClosing, hMatched⟩⟩
            · have hParen : t.isParen = false := isParen_eq_false_iff.2 ⟨hOpening, hClosing⟩
              rw [matched_word hParen] at hMatched
              obtain ⟨b, following, hProper, rfl, hEnd⟩ := ih hShort hMatched
              obtain ⟨b', hProper', hTokens⟩ := exists_word hParen hProper
              exact ⟨b', following, hProper', by simp [hTokens], hEnd⟩

/-- **Tokens are bracketed if and only if their parentheses match.** -/
theorem exists_tokens_eq_iff {ts : List Token} :
    (∃ b : Bracketed, b.Proper ∧ b.tokens = ts) ↔ Matched 0 ts := by
  constructor
  · rintro ⟨b, hProper, rfl⟩
    rw [← List.append_nil b.tokens, matched_tokens hProper]
    rfl
  · intro hMatched
    obtain ⟨b, following, hProper, rfl, hEnd⟩ :=
      exists_bracketed_front ts.length (le_refl _) hMatched
    obtain ⟨-, rfl⟩ | ⟨_, _, _, hZero, -⟩ := hEnd
    · exact ⟨b, hProper, by simp⟩
    · cases hZero

/-- The parentheses of tokens that have priorities match. -/
private theorem matched_of_prioritiesInside {ts : List Token} {opened : List Span}
    {ps : List Int} (hps : prioritiesInside opened ts = .ok ps) : Matched opened.length ts := by
  induction ts generalizing opened ps with
  | nil =>
      cases opened with
      | nil => rfl
      | cons innermost outer => cases hps
  | cons t ts ih =>
      by_cases hOpening : t.kind = .openParen
      · obtain ⟨qs, hqs, -⟩ := ofTokens_openParen hOpening hps
        exact (matched_openParen hOpening).2 (ih hqs)
      · by_cases hClosing : t.kind = .closeParen
        · cases opened with
          | nil =>
              rw [prioritiesInside_closeParen_nil hClosing] at hps
              cases hps
          | cons innermost outer =>
              obtain ⟨qs, hqs, -⟩ := ofTokens_closeParen hClosing hps
              exact (matched_closeParen hClosing).2 (ih hqs)
        · have hParen : t.isParen = false := isParen_eq_false_iff.2 ⟨hOpening, hClosing⟩
          obtain ⟨qs, hqs, -⟩ := ofTokens_word hParen hps
          exact (matched_word hParen).2 (ih hqs)

/-- **Tokens that have priorities are bracketed.** -/
theorem exists_of_priorities {ts : List Token} {ps : List Int}
    (hps : Token.priorities ts = .ok ps) : ∃ b : Bracketed, b.Proper ∧ b.tokens = ts :=
  exists_tokens_eq_iff.2 (matched_of_prioritiesInside hps)

/-! ## Sources -/

section

variable {source : List Char} {b : Bracketed} (hTokens : from? 0 source = .ok b.tokens)
  (hProper : b.Proper)
include hTokens hProper

/-- The items of a bracketed source that is not too high. -/
theorem itemsOf?_eq (hHeight : b.height ≤ maxNesting) :
    Expr.itemsOf? source = .ok (b.items 0) := by
  have hLimit : ([] : List Span).length + b.height ≤ maxNesting := by simpa using hHeight
  obtain ⟨ps, hps⟩ := prioritized_tokens hProper hLimit
  have hPriorities : prioritiesInside [] (b.tokens ++ []) = .ok (ps ++ []) := hps []
  obtain ⟨qs, -, hItems⟩ := ofTokens_tokens hProper hPriorities (by simp)
  rw [List.append_nil, List.append_nil] at hPriorities hItems
  have hNone : ofTokens [] qs = [] := rfl
  rw [hNone, List.append_nil] at hItems
  rw [Expr.itemsOf?, ofSource?_eq, hTokens]
  show Token.priorities b.tokens >>= _ = _
  rw [Token.priorities, hPriorities]
  exact congrArg Except.ok hItems

/-- A bracketed source that is too high is refused for it. -/
theorem itemsOf?_tooDeep (hHeight : maxNesting < b.height) :
    ∃ span, Expr.itemsOf? source = .error ⟨span, .nestingTooDeep maxNesting⟩ := by
  have hLimit : maxNesting < ([] : List Span).length + b.height := by simpa using hHeight
  obtain ⟨span, hSpan⟩ := tooDeep_tokens hProper (Nat.zero_le _) hLimit
  refine ⟨span, ?_⟩
  have hPriorities := hSpan []
  rw [List.append_nil] at hPriorities
  rw [Expr.itemsOf?, ofSource?_eq, hTokens]
  show Token.priorities b.tokens >>= _ = _
  rw [Token.priorities, hPriorities]
  rfl

end

/-- **A source with items is bracketed**, and its items are those of the
bracketed sequence. -/
theorem exists_of_itemsOf? {source : List Char} {is : List Item}
    (hItems : Expr.itemsOf? source = .ok is) :
    ∃ b : Bracketed, b.Proper ∧ from? 0 source = .ok b.tokens ∧ b.height ≤ maxNesting ∧
      is = b.items 0 := by
  obtain ⟨ts, hTokens, hRest⟩ := bind_eq_ok_iff.1 hItems
  obtain ⟨ps, hps, -⟩ := bind_eq_ok_iff.1 hRest
  obtain ⟨b, hProper, rfl⟩ := exists_of_priorities hps
  rw [ofSource?_eq] at hTokens
  have hHeight : b.height ≤ maxNesting := by
    by_contra hHeight
    obtain ⟨span, hRefused⟩ := itemsOf?_tooDeep hTokens hProper (Nat.lt_of_not_le hHeight)
    rw [hItems] at hRefused
    cases hRefused
  refine ⟨b, hProper, hTokens, hHeight, ?_⟩
  rw [itemsOf?_eq hTokens hProper hHeight] at hItems
  exact (Except.ok.inj hItems).symm

/-! ## Nesting -/

section

variable {t : Token} (hSpelled : t.Spelled)
include hSpelled

private theorem lexeme_eq_singleton {kind : Kind} {c : Char} (hKind : t.kind = kind)
    (hRuns : kind.runs = false) (hOnly : ∀ d, Kind.ofChar? d = some kind → d = c) :
    t.lexeme = [c] := by
  obtain ⟨d, hd⟩ := List.length_eq_one_iff.1 (hSpelled.single (by rw [hKind, hRuns]))
  have hChar := hSpelled.ofKind d (by simp [hd])
  rw [hd, hOnly d (hKind ▸ hChar)]

theorem lexeme_openParen (hKind : t.kind = .openParen) : t.lexeme = ['('] :=
  lexeme_eq_singleton hSpelled hKind rfl fun _ h => Kind.of_ofChar? h

theorem lexeme_closeParen (hKind : t.kind = .closeParen) : t.lexeme = [')'] :=
  lexeme_eq_singleton hSpelled hKind rfl fun _ h => Kind.of_ofChar? h

theorem lexeme_comma (hKind : t.kind = .comma) : t.lexeme = [','] :=
  lexeme_eq_singleton hSpelled hKind rfl fun _ h => Kind.of_ofChar? h

theorem noParen_lexeme (hParen : t.isParen = false) :
    ∀ c ∈ t.lexeme, c ≠ '(' ∧ c ≠ ')' :=
  fun c hc => Kind.noParen_of_ofChar? (hSpelled.ofKind c hc) hParen

end

section

open Grammar

private theorem nesting_word {t : Token} (hSpelled : t.Spelled) (hParen : t.isParen = false)
    (opened : Nat) (s : List Char) : nesting opened (t.lexeme ++ s) = nesting opened s :=
  nesting_append_of_noParen opened s (noParen_lexeme hSpelled hParen)

/-- A pair of parentheses nests one deeper than what it encloses. -/
private theorem nesting_pair {opening closing : Token} (hOpening : opening.Spelled)
    (hClosing : closing.Spelled) (hOpeningKind : opening.kind = .openParen)
    (hClosingKind : closing.kind = .closeParen) {inside rest : List Char} {inner outer opened : Nat}
    (hInside : ∀ s, nesting (opened + 1) (inside ++ s) =
      max (opened + 1 + inner) (nesting (opened + 1) s))
    (hRest : ∀ s, nesting opened (rest ++ s) = max (opened + outer) (nesting opened s))
    (s : List Char) :
    nesting opened (opening.lexeme ++ (inside ++ (closing.lexeme ++ (rest ++ s)))) =
      max (opened + max (inner + 1) outer) (nesting opened s) := by
  have hClosed : nesting (opened + 1) (')' :: (rest ++ s)) =
      max (opened + 1) (nesting opened (rest ++ s)) := by
    rw [nesting, if_neg (by decide), if_pos rfl]
    rfl
  rw [lexeme_openParen hOpening hOpeningKind, lexeme_closeParen hClosing hClosingKind,
    List.singleton_append, nesting, if_pos rfl, hInside, List.singleton_append, hClosed, hRest]
  omega

/-- The height of a bracketed sequence is the nesting of its text. -/
theorem nesting_tokens {b : Bracketed} (hProper : b.Proper)
    (hSpelled : ∀ t ∈ b.tokens, t.Spelled) (opened : Nat) (s : List Char) :
    nesting opened (b.tokens.flatMap lexeme ++ s) = max (opened + b.height) (nesting opened s) := by
  induction b generalizing opened s with
  | nil =>
      have := le_nesting opened s
      simp only [tokens, List.flatMap_nil, List.nil_append, height]
      omega
  | word t rest ih =>
      obtain ⟨hParen, -, hRest⟩ := hProper
      simp only [tokens, List.mem_cons, forall_eq_or_imp] at hSpelled
      rw [tokens, List.flatMap_cons, List.append_assoc, nesting_word hSpelled.1 hParen,
        ih hRest hSpelled.2]
      rfl
  | group opening closing inside rest ihInside ih =>
      obtain ⟨hOpening, hClosing, hInside, hRest⟩ := hProper
      simp only [tokens, List.mem_cons, List.mem_append, or_imp, forall_and, forall_eq]
        at hSpelled
      obtain ⟨hO, hI, hC, hR⟩ := hSpelled
      simp only [tokens, List.flatMap_cons, List.flatMap_append, List.append_assoc]
      exact nesting_pair hO hC hOpening hClosing (fun s => ihInside hInside hI _ s)
        (fun s => ih hRest hR _ s) s
  | call name opening closing inside rest ihInside ih =>
      obtain ⟨hName, hOpening, hClosing, hInside, hRest⟩ := hProper
      simp only [tokens, List.mem_cons, List.mem_append, or_imp, forall_and, forall_eq]
        at hSpelled
      obtain ⟨hN, hO, hI, hC, hR⟩ := hSpelled
      simp only [tokens, List.flatMap_cons, List.flatMap_append, List.append_assoc]
      rw [nesting_word hN (isParen_of_namesFunction hName)]
      exact nesting_pair hO hC hOpening hClosing (fun s => ihInside hInside hI _ s)
        (fun s => ih hRest hR _ s) s

/-- The height of a bracketed source is the nesting of the source. -/
theorem nesting_source {source : List Char} {b : Bracketed}
    (hTokens : from? 0 source = .ok b.tokens) (hProper : b.Proper) :
    nesting 0 source = b.height := by
  have hNesting := nesting_tokens hProper (spelled_of_mem hTokens) 0 []
  rw [flatMap_lexeme hTokens, List.append_nil] at hNesting
  rw [hNesting, nesting]
  omega

end

end Fluxion.Bracketed
