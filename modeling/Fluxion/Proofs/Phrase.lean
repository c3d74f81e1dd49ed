import Fluxion.Proofs.BracketedItems
import Fluxion.Proofs.Numeral

/-!
# Derivations over tokens

A derivation of a text splits the text exactly where cutting it into tokens
does, because no two neighbouring parts that the grammar puts together join.
So it can be carried over to the bracketed tokens of the text and back. On
that side there are no characters left to look at: `Phrase` is the same grammar
with whole tokens as its leaves.

## Main results

* `Grammar.exists_phrase` — a derivable text has tokens, and they are a phrase.
* `Grammar.Phrase.derives` — the text of a phrase is derivable.
-/

namespace Fluxion.Grammar

open Token Bracketed

/-- The bracketed tokens of each nonterminal, with the expressions they stand
for. -/
inductive Phrase : Symbol → Bracketed → List Expr → Prop
  | number {t : Token} {d : Number.Decimal} (hKind : t.kind = .number)
      (hSpells : Spells t.lexeme d) :
      Phrase .atom (word t nil) [.const (Number.ofPattern false d.pattern)]
  | name {t : Token} (hKind : t.kind = .name) : Phrase .atom (word t nil) [named t.lexeme]
  | group {opening closing : Token} {inside : Bracketed} {e : Expr}
      (hInside : Phrase .expr inside [e]) : Phrase .atom (group opening closing inside nil) [e]
  | emptyCall {name opening closing : Token} (hName : name.namesFunction) :
      Phrase .atom (call name opening closing nil nil) [.call name.text []]
  | call {name opening closing : Token} {inside : Bracketed} {es : List Expr}
      (hName : name.namesFunction) (hArguments : Phrase .arguments inside es) :
      Phrase .atom (call name opening closing inside nil) [.call name.text es]
  | operation {op : Operator} {t : Token} {x y : Bracketed} {a b : Expr}
      (hOp : t.operator? = some op) (hLeft : Phrase (.operand op .left) x [a])
      (hRight : Phrase (.operand op .right) y [b]) :
      Phrase (.ofOperator op) (x ++ word t y) [.binary op a b]
  | term {x : Bracketed} {e : Expr} (hTerm : Phrase .term x [e]) : Phrase .expr x [e]
  | power {x : Bracketed} {e : Expr} (hPower : Phrase .power x [e]) : Phrase .term x [e]
  | atom {x : Bracketed} {e : Expr} (hAtom : Phrase .atom x [e]) : Phrase .power x [e]
  | lastArgument {x : Bracketed} {e : Expr} (hLast : Phrase .expr x [e]) : Phrase .arguments x [e]
  | moreArguments {t : Token} {x y : Bracketed} {e : Expr} {es : List Expr}
      (hComma : t.kind = .comma) (hFirst : Phrase .expr x [e]) (hMore : Phrase .arguments y es) :
      Phrase .arguments (x ++ word t y) (e :: es)

/-! ## Tokens that spell what the grammar names -/

theorem exists_function {t : Token} (hName : t.namesFunction) :
    ∃ f : Function, t.kind = .name ∧ t.text = f.name ∧ t.lexeme = f.name.toList := by
  simp only [namesFunction, Bool.and_eq_true, beq_iff_eq, Option.isSome_iff_exists] at hName
  obtain ⟨hKind, f, hf⟩ := hName
  have hText := (Function.name_of_ofName? hf).symm
  exact ⟨f, hKind, hText, by rw [← hText, Token.text, String.toList_ofList]⟩

theorem isAlpha_of_mem_name (f : Function) : ∀ c ∈ f.name.toList, c.isAlpha := by
  have hLetters : f.name.toList.all Char.isAlpha = true := by
    cases f <;> decide
  exact List.all_eq_true.1 hLetters

theorem name_ne_nil (f : Function) : f.name.toList ≠ [] := by
  cases f <;> decide

/-! ## The ends of a derivable text -/

/-- A text that neither starts nor ends with the character of an operator. -/
structure Edged (s : List Char) : Prop where
  nonempty : s ≠ []
  head : ∀ c ∈ s.head?, Kind.ofChar? c ≠ some .operator
  last : ∀ c ∈ s.getLast?, Kind.ofChar? c ≠ some .operator

private theorem edged_run {s : List Char} {kind : Kind} (hSome : s ≠ [])
    (hKind : ∀ c ∈ s, Kind.ofChar? c = some kind) (hOperator : kind ≠ .operator) : Edged s := by
  have hNot : ∀ c ∈ s, Kind.ofChar? c ≠ some .operator := by
    intro c hc
    rw [hKind c hc]
    simpa using hOperator
  exact ⟨hSome, fun c hc => hNot c (List.mem_of_mem_head? hc),
    fun c hc => hNot c (List.mem_of_mem_getLast? hc)⟩

theorem edged_enclosed (s : List Char) : Edged ('(' :: (s ++ [')'])) := by
  have hLast : ('(' :: (s ++ [')'])).getLast? = some ')' := by
    rw [← List.cons_append, List.getLast?_append]
    rfl
  refine ⟨by simp, by simp [show Kind.ofChar? '(' = some .openParen by decide], ?_⟩
  rw [hLast]
  simp [show Kind.ofChar? ')' = some .closeParen by decide]

/-- Only the outer parts of a text put together from several decide. -/
private theorem Edged.append {s t : List Char} (hs : Edged s) (ht : Edged t) (between : List Char) :
    Edged (s ++ (between ++ t)) := by
  obtain ⟨c, rest, rfl⟩ := List.exists_cons_of_ne_nil hs.nonempty
  refine ⟨by simp, hs.head, ?_⟩
  rw [← List.append_assoc, List.getLast?_append_of_ne_nil _ ht.nonempty]
  exact ht.last

private theorem edged_name (f : Function) : Edged f.name.toList :=
  edged_run (name_ne_nil f) (fun c hc => Kind.ofChar?_of_isAlpha (isAlpha_of_mem_name f c hc))
    (by decide)

/-- Whatever is derivable starts and ends with an operand. -/
theorem Derives.edged {n : Symbol} {s : List Char} {es : List Expr} (hDerives : Derives n s es) :
    Edged s := by
  induction hDerives with
  | number hSpells => exact edged_run hSpells.ofKind.1 hSpells.ofKind.2 (by decide)
  | name hSome hLetters =>
      exact edged_run hSome (fun c hc => Kind.ofChar?_of_isAlpha (hLetters c hc)) (by decide)
  | group => exact edged_enclosed _
  | emptyCall f => exact (edged_name f).append (edged_enclosed []) []
  | call f => exact (edged_name f).append (edged_enclosed _) []
  | operation op _ _ ihLeft ihRight => exact ihLeft.append ihRight [op.symbol]
  | term _ ih => exact ih
  | power _ ih => exact ih
  | atom _ ih => exact ih
  | lastArgument _ ih => exact ih
  | moreArguments _ _ ihFirst ihMore => exact ihFirst.append ihMore [',']

/-! ## Cutting along a derivation -/

theorem joins_eq_false {a b : Char} (hApart : Kind.ofChar? a ≠ Kind.ofChar? b) :
    Piece.joins a b = false := by
  unfold Piece.joins
  split
  · next kind ha =>
      rw [ha] at hApart
      rw [Bool.and_eq_false_iff, beq_eq_false_iff_ne]
      exact .inr hApart.symm
  · rfl

/-- Parentheses and commas join with nothing, not even with each other. -/
theorem joins_single {a b : Char} {kind : Kind} (hRuns : kind.runs = false)
    (hSingle : Kind.ofChar? a = some kind ∨ Kind.ofChar? b = some kind) :
    Piece.joins a b = false := by
  by_cases hSame : Kind.ofChar? a = Kind.ofChar? b
  · have ha : Kind.ofChar? a = some kind := by
      rcases hSingle with ha | hb
      · exact ha
      · exact hSame.trans hb
    simp [Piece.joins, ha, hRuns]
  · exact joins_eq_false hSame

section

variable {s t : List Char} {front back : List Token} {start : Nat}

/-- The tokens of two parts around a character that joins with neither. -/
theorem from?_around {c : Char} {kind : Kind} (hKind : Kind.ofChar? c = some kind)
    (hLeft : ∀ a ∈ s.getLast?, Piece.joins a c = false)
    (hRight : ∀ b ∈ t.head?, Piece.joins c b = false) (hFront : from? start s = .ok front)
    (hBack : from? (start + Piece.byteLength s + Piece.byteLength [c]) t = .ok back) :
    ∃ between, between.kind = kind ∧ between.lexeme = [c] ∧
      from? start (s ++ c :: t) = .ok (front ++ between :: back) := by
  have hMiddle := from?_run (start + Piece.byteLength s) (List.cons_ne_nil c [])
    (by simpa using hKind) (.inr rfl)
  have hRest := from?_append_ok (s := [c]) (by simpa using hRight) hMiddle hBack
  exact ⟨_, rfl, rfl, from?_append_ok (by simpa using hLeft) hFront hRest⟩

theorem ofChar?_openParen : Kind.ofChar? '(' = some .openParen := by decide

theorem ofChar?_closeParen : Kind.ofChar? ')' = some .closeParen := by decide

theorem ofChar?_comma : Kind.ofChar? ',' = some .comma := by decide

/-- The tokens of a part in parentheses. -/
theorem from?_enclosed
    (hInside : from? (start + Piece.byteLength ['(']) s = .ok front) :
    ∃ opening closing, opening.kind = .openParen ∧ closing.kind = .closeParen ∧
      from? start ('(' :: (s ++ [')'])) = .ok (opening :: (front ++ [closing])) := by
  obtain ⟨closing, hClosing, -, hEnd⟩ := from?_around (t := []) ofChar?_closeParen
    (fun _ _ => joins_single rfl (.inr ofChar?_closeParen)) (by simp) hInside rfl
  have hNothing : from? start [] = .ok [] := rfl
  obtain ⟨opening, hOpening, -, hAll⟩ := from?_around ofChar?_openParen (by simp)
    (fun _ _ => joins_single rfl (.inl ofChar?_openParen)) hNothing hEnd
  exact ⟨opening, closing, hOpening, hClosing, hAll⟩

end

/-- The tokens of a function's name in front of a part in parentheses. -/
theorem from?_call (f : Function) {s : List Char} {start : Nat} {front : List Token}
    (hInside : from? (start + Piece.byteLength f.name.toList + Piece.byteLength ['(']) s =
      .ok front) :
    ∃ name opening closing, name.namesFunction ∧ name.text = f.name ∧
      opening.kind = .openParen ∧ closing.kind = .closeParen ∧
      from? start (f.name.toList ++ '(' :: (s ++ [')'])) =
        .ok (name :: opening :: (front ++ [closing])) := by
  have hName := from?_run start (name_ne_nil f)
    (fun c hc => Kind.ofChar?_of_isAlpha (isAlpha_of_mem_name f c hc)) (.inl rfl)
  obtain ⟨opening, closing, hOpening, hClosing, hRest⟩ := from?_enclosed hInside
  refine ⟨_, opening, closing, ?_, ?_, hOpening, hClosing, from?_append_ok ?_ hName hRest⟩
  · simp [namesFunction, Token.text]
  · rw [Token.text, String.ofList_toList]
  · intro a _ b hb
    obtain rfl : '(' = b := by simpa using hb
    exact joins_single rfl (.inr ofChar?_openParen)

theorem isParen_eq_false {t : Token} {kind : Kind} (hKind : t.kind = kind)
    (hParen : kind.isParen = false) : t.isParen = false := by
  rw [Token.isParen, hKind, hParen]

theorem proper_word {t : Token} {b : Bracketed} (hParen : t.isParen = false)
    (hName : t.kind ≠ .name) (hProper : b.Proper) : (word t b).Proper := by
  refine ⟨hParen, fun hNames => ?_, hProper⟩
  simp [namesFunction, hName] at hNames

/-- **The tokens of a derivable text are a phrase** for the same
expressions. -/
theorem exists_phrase {n : Symbol} {s : List Char} {es : List Expr} (hDerives : Derives n s es)
    (start : Nat) : ∃ b : Bracketed, from? start s = .ok b.tokens ∧ b.Proper ∧ Phrase n b es := by
  induction hDerives generalizing start with
  | number hSpells =>
      obtain ⟨hSome, hKind⟩ := hSpells.ofKind
      exact ⟨word _ nil, from?_run start hSome hKind (.inl rfl),
        proper_word rfl (by simp) trivial, .number rfl hSpells⟩
  | name hSome hLetters =>
      exact ⟨word _ nil, from?_run start hSome
        (fun c hc => Kind.ofChar?_of_isAlpha (hLetters c hc)) (.inl rfl),
        ⟨rfl, fun _ => rfl, trivial⟩, .name rfl⟩
  | group _ ih =>
      obtain ⟨inside, hInside, hProper, hPhrase⟩ := ih (start + Piece.byteLength ['('])
      obtain ⟨opening, closing, hOpening, hClosing, hTokens⟩ := from?_enclosed hInside
      exact ⟨group opening closing inside nil, hTokens, ⟨hOpening, hClosing, hProper, trivial⟩,
        .group hPhrase⟩
  | emptyCall f =>
      have hNothing (start : Nat) : from? start [] = .ok [] := rfl
      obtain ⟨name, opening, closing, hName, hText, hOpening, hClosing, hTokens⟩ :=
        from?_call f (hNothing _)
      exact ⟨call name opening closing nil nil, hTokens,
        ⟨hName, hOpening, hClosing, trivial, trivial⟩, hText ▸ .emptyCall hName⟩
  | call f _ ih =>
      obtain ⟨inside, hInside, hProper, hPhrase⟩ :=
        ih (start + Piece.byteLength f.name.toList + Piece.byteLength ['('])
      obtain ⟨name, opening, closing, hName, hText, hOpening, hClosing, hTokens⟩ :=
        from?_call f hInside
      exact ⟨call name opening closing inside nil, hTokens,
        ⟨hName, hOpening, hClosing, hProper, trivial⟩, hText ▸ .call hName hPhrase⟩
  | @operation op s t _ _ hLeft hRight ihLeft ihRight =>
      obtain ⟨x, hx, hxProper, hxPhrase⟩ := ihLeft start
      obtain ⟨y, hy, hyProper, hyPhrase⟩ :=
        ihRight (start + Piece.byteLength s + Piece.byteLength [op.symbol])
      have hSymbol := Kind.ofChar?_symbol op
      obtain ⟨between, hKind, hLexeme, hTokens⟩ := from?_around hSymbol
        (fun a ha => joins_eq_false (hSymbol.symm ▸ hLeft.edged.last a ha))
        (fun b hb => joins_eq_false (hSymbol.symm ▸ (hRight.edged.head b hb).symm)) hx hy
      have hOp : between.operator? = some op := by
        simp [Token.operator?, hKind, hLexeme, Operator.ofText?]
      refine ⟨x ++ word between y, by simpa [tokens] using hTokens, ?_,
        .operation hOp hxPhrase hyPhrase⟩
      exact hxProper.append
        (proper_word (isParen_eq_false hKind rfl) (by simp [hKind]) hyProper) rfl
  | term _ ih =>
      obtain ⟨b, hTokens, hProper, hPhrase⟩ := ih start
      exact ⟨b, hTokens, hProper, .term hPhrase⟩
  | power _ ih =>
      obtain ⟨b, hTokens, hProper, hPhrase⟩ := ih start
      exact ⟨b, hTokens, hProper, .power hPhrase⟩
  | atom _ ih =>
      obtain ⟨b, hTokens, hProper, hPhrase⟩ := ih start
      exact ⟨b, hTokens, hProper, .atom hPhrase⟩
  | lastArgument _ ih =>
      obtain ⟨b, hTokens, hProper, hPhrase⟩ := ih start
      exact ⟨b, hTokens, hProper, .lastArgument hPhrase⟩
  | @moreArguments s t _ _ _ _ ihFirst ihMore =>
      obtain ⟨x, hx, hxProper, hxPhrase⟩ := ihFirst start
      obtain ⟨y, hy, hyProper, hyPhrase⟩ :=
        ihMore (start + Piece.byteLength s + Piece.byteLength [','])
      obtain ⟨between, hKind, -, hTokens⟩ := from?_around ofChar?_comma
        (fun _ _ => joins_single rfl (.inr ofChar?_comma))
        (fun _ _ => joins_single rfl (.inl ofChar?_comma)) hx hy
      refine ⟨x ++ word between y, by simpa [tokens] using hTokens, ?_,
        .moreArguments hKind hxPhrase hyPhrase⟩
      exact hxProper.append
        (proper_word (isParen_eq_false hKind rfl) (by simp [hKind]) hyProper) rfl

/-! ## The text of a phrase -/

/-- **The text of a phrase is derivable.** -/
theorem Phrase.derives {n : Symbol} {b : Bracketed} {es : List Expr} (hPhrase : Phrase n b es)
    (hProper : b.Proper) (hSpelled : ∀ t ∈ b.tokens, t.Spelled) :
    Derives n (b.tokens.flatMap lexeme) es := by
  induction hPhrase with
  | number hKind hSpells => simpa [tokens] using Derives.number hSpells
  | @name t hKind =>
      have hWritten := hSpelled t (by simp [tokens])
      have hLetters : ∀ c ∈ t.lexeme, c.isAlpha := fun c hc =>
        Kind.of_ofChar? (hKind ▸ hWritten.ofKind c hc)
      simpa [tokens] using Derives.name hWritten.nonempty hLetters
  | @group opening closing inside e _ ih =>
      obtain ⟨hOpening, hClosing, hInside, -⟩ := hProper
      simp only [tokens, List.mem_cons, List.mem_append, or_imp, forall_and, forall_eq]
        at hSpelled
      obtain ⟨hO, hI, hC, -⟩ := hSpelled
      simpa [tokens, lexeme_openParen hO hOpening, lexeme_closeParen hC hClosing]
        using Derives.group (ih hInside hI)
  | @emptyCall name opening closing hName =>
      obtain ⟨-, hOpening, hClosing, -, -⟩ := hProper
      obtain ⟨f, -, hText, hLexeme⟩ := exists_function hName
      simp only [tokens, List.mem_cons, List.mem_append, or_imp, forall_and, forall_eq]
        at hSpelled
      obtain ⟨-, hO, -, hC, -⟩ := hSpelled
      simpa [tokens, lexeme_openParen hO hOpening, lexeme_closeParen hC hClosing, hText, hLexeme]
        using Derives.emptyCall f
  | @call name opening closing inside es hName _ ih =>
      obtain ⟨-, hOpening, hClosing, hInside, -⟩ := hProper
      obtain ⟨f, -, hText, hLexeme⟩ := exists_function hName
      simp only [tokens, List.mem_cons, List.mem_append, or_imp, forall_and, forall_eq]
        at hSpelled
      obtain ⟨-, hO, hI, hC, -⟩ := hSpelled
      simpa [tokens, lexeme_openParen hO hOpening, lexeme_closeParen hC hClosing, hText, hLexeme]
        using Derives.call f (ih hInside hI)
  | @operation op t x y a b hOp _ _ ihLeft ihRight =>
      obtain ⟨hx, -, -, hy⟩ := hProper.of_append
      simp only [tokens_append, tokens, List.mem_append, List.mem_cons, or_imp, forall_and,
        forall_eq] at hSpelled
      obtain ⟨hX, -, hY⟩ := hSpelled
      simpa [tokens, lexeme_of_operator? hOp]
        using Derives.operation op (ihLeft hx hX) (ihRight hy hY)
  | term _ ih => exact .term (ih hProper hSpelled)
  | power _ ih => exact .power (ih hProper hSpelled)
  | atom _ ih => exact .atom (ih hProper hSpelled)
  | lastArgument _ ih => exact .lastArgument (ih hProper hSpelled)
  | @moreArguments t x y e es hComma _ _ ihFirst ihMore =>
      obtain ⟨hx, -, -, hy⟩ := hProper.of_append
      simp only [tokens_append, tokens, List.mem_append, List.mem_cons, or_imp, forall_and,
        forall_eq] at hSpelled
      obtain ⟨hX, hT, hY⟩ := hSpelled
      simpa [tokens, lexeme_comma hT hComma]
        using Derives.moreArguments (ihFirst hx hX) (ihMore hy hY)

end Fluxion.Grammar
