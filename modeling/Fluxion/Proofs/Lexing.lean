import Fluxion.Token.Lexing
import Mathlib

/-!
# What the tokens of a source are like

Cutting a source is local: where two neighbouring characters do not stay
together, the tokens of the whole are those of the part in front followed by
those of the part behind. A text can therefore be cut along the same places at
which a grammar puts it together.

## Main results

* `Token.from?_append` — the tokens of a text put together from two.
* `Token.from?_run` — a text of one class is one token.
* `Token.spelled_of_mem`, `Token.flatMap_lexeme` — the tokens of a source are
  runs of their class and spell the source.
-/

namespace Fluxion.Token

/-! ## Classes of characters -/

namespace Kind

theorem ofChar?_of_isDigit {c : Char} (hc : c.isDigit) : ofChar? c = some number := by
  simp [ofChar?, hc]

theorem ofChar?_point : ofChar? '.' = some number := by
  decide

theorem ofChar?_symbol (op : Operator) : ofChar? op.symbol = some operator := by
  cases op <;> decide

private theorem isDigit_eq_false_of_isAlpha {c : Char} (hc : c.isAlpha) : c.isDigit = false := by
  simp only [Char.isAlpha, Char.isUpper, Char.isLower, Bool.or_eq_true, Bool.and_eq_true,
    decide_eq_true_eq, Char.isDigit, Bool.and_eq_false_iff, decide_eq_false_iff_not,
    UInt32.not_le] at hc ⊢
  simp only [UInt32.le_iff_toNat_le, UInt32.lt_iff_toNat_lt, Char.reduceVal,
    UInt32.reduceToNat] at hc ⊢
  omega

theorem ofChar?_of_isAlpha {c : Char} (hc : c.isAlpha) : ofChar? c = some name := by
  have hDigit := isDigit_eq_false_of_isAlpha hc
  have hPoint : (c == '.') = false := by
    rw [beq_eq_false_iff_ne]
    rintro rfl
    exact absurd hc (by decide)
  have hOperator : Operator.ofChar? c = none := by
    cases hOp : Operator.ofChar? c with
    | none => rfl
    | some op =>
        rw [← Operator.symbol_of_ofChar? hOp] at hc
        cases op <;> exact absurd hc (by decide)
  simp [ofChar?, hDigit, hPoint, hOperator, hc]

/-- The members of a class, read off the character. -/
theorem of_ofChar? {c : Char} {kind : Kind} (h : ofChar? c = some kind) :
    match kind with
    | number => c.isDigit ∨ c = '.'
    | operator => ∃ op : Operator, c = op.symbol
    | name => c.isAlpha
    | openParen => c = '('
    | closeParen => c = ')'
    | comma => c = ',' := by
  unfold ofChar? at h
  split at h
  · next hc => cases h; simpa using hc
  · split at h
    · next hc =>
        cases h
        obtain ⟨op, hOp⟩ := Option.isSome_iff_exists.1 hc
        exact ⟨op, (Operator.symbol_of_ofChar? hOp).symm⟩
    · split at h
      · next hc => cases h; exact hc
      · split at h
        · next hc => cases h; exact hc
        · split at h
          · next hc => cases h; exact hc
          · split at h
            · next hc => cases h; exact hc
            · cases h

/-- Characters of other classes are no parentheses. -/
theorem noParen_of_ofChar? {c : Char} {kind : Kind} (hKind : ofChar? c = some kind)
    (hParen : kind.isParen = false) : c ≠ '(' ∧ c ≠ ')' := by
  constructor
  · rintro rfl
    obtain rfl : openParen = kind := Option.some.inj hKind
    cases hParen
  · rintro rfl
    obtain rfl : closeParen = kind := Option.some.inj hKind
    cases hParen

end Kind

/-! ## Tokens that are operators -/

theorem kind_of_operator? {t : Token} {op : Operator} (hOp : t.operator? = some op) :
    t.kind = .operator := by
  unfold operator? at hOp
  split at hOp
  · assumption
  · cases hOp

theorem lexeme_of_operator? {t : Token} {op : Operator} (hOp : t.operator? = some op) :
    t.lexeme = [op.symbol] := by
  rw [operator?, if_pos (kind_of_operator? hOp)] at hOp
  unfold Operator.ofText? at hOp
  split at hOp
  · next c hLexeme => rw [hLexeme, Operator.symbol_of_ofChar? hOp]
  · cases hOp

/-! ## Tokens of a part of a source -/

/-- The tokens of a text that starts at byte `start` of a source. -/
def from? (start : Nat) (s : List Char) : Except ParseError (List Token) :=
  (Piece.place start (Piece.runsOf s)).mapM Piece.token?

theorem ofSource?_eq (source : List Char) : ofSource? source = from? 0 source := rfl

private theorem place_append (start : Nat) (xs ys : List (List Char)) :
    Piece.place start (xs ++ ys) =
      Piece.place start xs ++ Piece.place (start + Piece.byteLength xs.flatten) ys := by
  induction xs generalizing start with
  | nil => simp [Piece.place, Piece.byteLength]
  | cons x xs ih =>
      have hBytes : Piece.byteLength (x ++ xs.flatten) =
          Piece.byteLength x + Piece.byteLength xs.flatten := by
        simp [Piece.byteLength]
      simp only [List.cons_append, Piece.place, ih, List.append_assoc, List.flatten_cons, hBytes,
        Nat.add_assoc]

/-- **Cutting is local.** Between two characters that do not stay together the
tokens of both sides are independent. -/
theorem from?_append {s t : List Char} (start : Nat)
    (hApart : ∀ a ∈ s.getLast?, ∀ b ∈ t.head?, Piece.joins a b = false) :
    from? start (s ++ t) =
      from? start s >>= fun front =>
        from? (start + Piece.byteLength s) t >>= fun back => .ok (front ++ back) := by
  have hRuns : Piece.runsOf (s ++ t) = Piece.runsOf s ++ Piece.runsOf t :=
    List.splitBy_append hApart
  have hFlatten : (Piece.runsOf s).flatten = s := List.flatten_splitBy _ _
  rw [from?, hRuns, place_append, hFlatten, List.mapM_append]
  rfl

/-- The two sides of a text that have tokens have them in the whole. -/
theorem from?_append_ok {s t : List Char} {start : Nat} {front back : List Token}
    (hApart : ∀ a ∈ s.getLast?, ∀ b ∈ t.head?, Piece.joins a b = false)
    (hFront : from? start s = .ok front)
    (hBack : from? (start + Piece.byteLength s) t = .ok back) :
    from? start (s ++ t) = .ok (front ++ back) := by
  rw [from?_append start hApart, hFront]
  show from? (start + Piece.byteLength s) t >>= _ = _
  rw [hBack]
  rfl

theorem joins_of_kind {a b : Char} {kind : Kind} (ha : Kind.ofChar? a = some kind)
    (hb : Kind.ofChar? b = some kind) : Piece.joins a b = kind.runs := by
  simp [Piece.joins, ha, hb]

/-- Characters of one class stay together, provided that the class runs together
or there is just one of them. -/
theorem isChain_joins {s : List Char} {kind : Kind} (hKind : ∀ c ∈ s, Kind.ofChar? c = some kind)
    (hRuns : kind.runs ∨ s.length = 1) : s.IsChain fun a b => Piece.joins a b := by
  rcases hRuns with hRuns | hOne
  · refine (List.pairwise_of_forall_mem_list ?_).isChain
    intro a ha b hb
    rw [joins_of_kind (hKind a ha) (hKind b hb)]
    exact hRuns
  · obtain ⟨c, rfl⟩ := List.length_eq_one_iff.1 hOne
    exact List.isChain_singleton c

/-- A text whose characters all belong to one class is one token, provided
that the class runs together or there is just one character. -/
theorem from?_run {s : List Char} {kind : Kind} (start : Nat) (hSome : s ≠ [])
    (hKind : ∀ c ∈ s, Kind.ofChar? c = some kind) (hRuns : kind.runs ∨ s.length = 1) :
    from? start s = .ok [⟨kind, s, ⟨start, start + Piece.byteLength s⟩⟩] := by
  have hChain := isChain_joins hKind hRuns
  have hSplit : Piece.runsOf s = [s] := List.splitBy_of_isChain hSome hChain
  obtain ⟨c, rest, rfl⟩ := List.exists_cons_of_ne_nil hSome
  rw [from?, hSplit]
  simp [Piece.place, Piece.ofRun?, hKind c (by simp), Piece.token?]

/-! ## What the tokens spell -/

/-- A token that is written as its kind is: characters of its class, and only
one of them where characters of the class do not run together. -/
structure Spelled (t : Token) : Prop where
  nonempty : t.lexeme ≠ []
  ofKind : ∀ c ∈ t.lexeme, Kind.ofChar? c = some t.kind
  single : t.kind.runs = false → t.lexeme.length = 1

/-- All characters of a run belong to the class of its first. -/
theorem kind_of_isChain {a : Char} {rest : List Char} {kind : Kind}
    (hChain : (a :: rest).IsChain fun x y => Piece.joins x y) (ha : Kind.ofChar? a = some kind) :
    ∀ c ∈ a :: rest, Kind.ofChar? c = some kind := by
  induction rest generalizing a with
  | nil => simpa using ha
  | cons b rest ih =>
      rw [List.isChain_cons_cons] at hChain
      have hb : Kind.ofChar? b = some kind := by
        have hJoins := hChain.1
        simp only [Piece.joins, ha, Bool.and_eq_true, beq_iff_eq] at hJoins
        exact hJoins.2
      intro c hc
      rcases List.mem_cons.1 hc with rfl | hMem
      · exact ha
      · exact ih hChain.2 hb c hMem

private theorem single_of_isChain {s : List Char} {kind : Kind} (hSome : s ≠ [])
    (hChain : s.IsChain fun x y => Piece.joins x y) (hKind : ∀ c ∈ s, Kind.ofChar? c = some kind)
    (hRuns : kind.runs = false) : s.length = 1 := by
  match s with
  | [] => exact absurd rfl hSome
  | [_] => rfl
  | a :: b :: rest =>
      rw [List.isChain_cons_cons] at hChain
      have hJoins := joins_of_kind (hKind a (by simp)) (hKind b (by simp))
      rw [hRuns, hChain.1] at hJoins
      cases hJoins

/-- Reading a list of runs: every token is written as its kind is, and its
characters are the run in its place. -/
private theorem spelled_of_place {runs : List (List Char)} {start : Nat} {ts : List Token}
    (hTokens : (Piece.place start runs).mapM Piece.token? = .ok ts) (hSome : [] ∉ runs)
    (hChain : ∀ run ∈ runs, run.IsChain fun x y => Piece.joins x y) :
    (∀ t ∈ ts, t.Spelled) ∧ ts.map lexeme = runs := by
  induction runs generalizing start ts with
  | nil =>
      cases hTokens
      exact ⟨by simp, rfl⟩
  | cons run runs ih =>
      obtain ⟨c, rest, rfl⟩ := List.exists_cons_of_ne_nil
        (fun h : run = [] => hSome (by simp [h]))
      have hRun := hChain _ List.mem_cons_self
      cases hc : Kind.ofChar? c with
      | none =>
          simp [Piece.place, Piece.ofRun?, hc, Piece.token?, bind, Except.bind] at hTokens
      | some kind =>
          simp only [Piece.place, Piece.ofRun?, hc, List.head?_cons, Option.map_some,
            Option.toList_some, List.cons_append, List.nil_append, List.mapM_cons, Piece.token?]
            at hTokens
          cases hRest : (Piece.place (start + Piece.byteLength (c :: rest)) runs).mapM
              Piece.token? with
          | error e =>
              rw [hRest] at hTokens
              cases hTokens
          | ok back =>
              rw [hRest] at hTokens
              cases hTokens
              obtain ⟨hSpelled, hRuns⟩ := ih hRest (fun h => hSome (by simp [h]))
                fun run hMem => hChain run (by simp [hMem])
              have hKind := kind_of_isChain hRun hc
              refine ⟨?_, by rw [List.map_cons, hRuns]⟩
              intro t ht
              rcases List.mem_cons.1 ht with rfl | hMem
              · exact ⟨by simp, hKind, single_of_isChain (by simp) hRun hKind⟩
              · exact hSpelled t hMem

section

variable {start : Nat} {s : List Char} {ts : List Token} (hTokens : from? start s = .ok ts)
include hTokens

/-- The tokens of a text are written as their kinds are. -/
theorem spelled_of_mem : ∀ t ∈ ts, t.Spelled :=
  (spelled_of_place hTokens (List.nil_notMem_splitBy _ _)
    fun _ => List.isChain_of_mem_splitBy).1

/-- The tokens of a text are its runs. -/
theorem map_lexeme : ts.map lexeme = Piece.runsOf s :=
  (spelled_of_place hTokens (List.nil_notMem_splitBy _ _)
    fun _ => List.isChain_of_mem_splitBy).2

/-- The tokens of a text spell it. -/
theorem flatMap_lexeme : ts.flatMap lexeme = s := by
  rw [List.flatMap_def, map_lexeme hTokens]
  exact List.flatten_splitBy _ _

end

end Fluxion.Token
