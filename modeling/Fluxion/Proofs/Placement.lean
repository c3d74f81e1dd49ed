import Fluxion.Proofs.Alternation
import Fluxion.Proofs.Precedence

/-!
# Where parentheses may stand

Reading an expression looks at parentheses only through depths and reaches.
That a grouping pair encloses an operand, and a whole one, is checked by
nothing: in `x*(y+)4` the pair makes the sum the stronger operation and is
forgotten. `wellPlaced` says what the grammar demands of parentheses, token by
token, and it is all that is missing: of the sources that are read, those with
well placed parentheses are the derivable ones.

## Main results

* `Grammar.wellPlaced_of_derives` — derivable sources have well placed
  parentheses.
* `Expr.derives_iff_of_parse` — what a source that is read lacks to be
  derivable.
-/

namespace Fluxion

/-! ## Well placed parentheses -/

namespace Token

/-- Whether an operand may start behind the token. -/
def startsOperand (previous : Option Token) : Bool :=
  previous.all fun t => t.kind == .openParen || t.kind == .operator || t.kind == .comma

/-- Whether an operand may end in front of the token. -/
def endsOperand (next : Option Token) : Bool :=
  next.all fun t => t.kind == .closeParen || t.kind == .operator || t.kind == .comma

/-- Whether a token may stand between two others as far as parentheses are
concerned. Behind the name of a function they belong to its call; every other
opening one starts an operand and is not closed at once, and every closing one
ends an operand. -/
def placedBetween (previous : Option Token) (t : Token) (next : Option Token) : Bool :=
  match t.kind with
  | .openParen =>
    previous.any namesFunction
      || (startsOperand previous && next.all fun t => t.kind != .closeParen)
  | .closeParen => endsOperand next
  | .number | .operator | .name | .comma => true

/-- Whether all parentheses among tokens that follow `previous` are well
placed. -/
def wellPlaced (previous : Option Token) : List Token → Bool
  | [] => true
  | t :: rest => placedBetween previous t rest.head? && wellPlaced (some t) rest

variable {previous : Option Token} {t : Token} {rest : List Token}

theorem wellPlaced_word (hParen : t.isParen = false) :
    wellPlaced previous (t :: rest) = wellPlaced (some t) rest := by
  rw [wellPlaced]
  cases hKind : t.kind <;> simp_all [placedBetween, Token.isParen, Kind.isParen]

theorem wellPlaced_openParen (hKind : t.kind = .openParen) :
    wellPlaced previous (t :: rest) ↔
      (previous.any namesFunction ∨
        (startsOperand previous ∧ ∀ next ∈ rest.head?, next.kind ≠ .closeParen)) ∧
      wellPlaced (some t) rest := by
  rw [wellPlaced]
  simp [placedBetween, hKind, Option.all_eq_true]

theorem wellPlaced_closeParen (hKind : t.kind = .closeParen) :
    wellPlaced previous (t :: rest) ↔
      endsOperand rest.head? ∧ wellPlaced (some t) rest := by
  rw [wellPlaced]
  simp [placedBetween, hKind]

theorem wellPlaced_of_append {front back : List Token}
    (hPlaced : wellPlaced previous (front ++ back)) :
    ∃ last, wellPlaced last back := by
  induction front generalizing previous with
  | nil => exact ⟨previous, hPlaced⟩
  | cons t front ih =>
      rw [List.cons_append, wellPlaced, Bool.and_eq_true] at hPlaced
      exact ih hPlaced.2

/-- What stands in front matters to an opening parenthesis only. -/
theorem wellPlaced_of_endsOperand {ts : List Token} (hEnd : endsOperand ts.head?)
    (previous previous' : Option Token) : wellPlaced previous ts = wellPlaced previous' ts := by
  cases ts with
  | nil => rfl
  | cons t rest =>
      rw [wellPlaced, wellPlaced]
      have hKind : t.kind ≠ .openParen := by
        intro hKind
        simp [endsOperand, hKind] at hEnd
      cases hOther : t.kind <;> simp_all [placedBetween]

end Token

namespace Grammar

open Token Item Bracketed

/-- The parentheses of a source are well placed. -/
def WellPlaced (source : List Char) : Prop :=
  ∃ ts, Token.ofSource? source = .ok ts ∧ wellPlaced none ts

/-! ## Phrases have well placed parentheses -/

/-- A phrase does not start with a closing parenthesis. -/
private theorem head?_phrase {n : Symbol} {b : Bracketed} {es : List Expr}
    (hPhrase : Phrase n b es) (hProper : b.Proper) :
    ∃ t rest, b.tokens = t :: rest ∧ t.kind ≠ .closeParen := by
  induction hPhrase with
  | @number t d hKind hSpells => exact ⟨t, [], rfl, by simp [hKind]⟩
  | @name t hKind => exact ⟨t, [], rfl, by simp [hKind]⟩
  | @group opening => exact ⟨opening, _, rfl, by simp [hProper.1]⟩
  | @emptyCall name _ _ hName =>
      obtain ⟨-, hKind, -⟩ := exists_function hName
      exact ⟨name, _, rfl, by simp [hKind]⟩
  | @call name _ _ _ _ hName =>
      obtain ⟨-, hKind, -⟩ := exists_function hName
      exact ⟨name, _, rfl, by simp [hKind]⟩
  | operation _ _ _ ihLeft =>
      obtain ⟨t, rest, hTokens, hKind⟩ := ihLeft hProper.of_append.1
      exact ⟨t, _, by rw [tokens_append, hTokens]; rfl, hKind⟩
  | term _ ih => exact ih hProper
  | power _ ih => exact ih hProper
  | atom _ ih => exact ih hProper
  | lastArgument _ ih => exact ih hProper
  | moreArguments _ _ _ ihFirst =>
      obtain ⟨t, rest, hTokens, hKind⟩ := ihFirst hProper.of_append.1
      exact ⟨t, _, by rw [tokens_append, hTokens]; rfl, hKind⟩

/-- An operand may end in front of the tokens, and their parentheses are well
placed. -/
private structure Ends (following : List Token) : Prop where
  ends : endsOperand following.head?
  placed : wellPlaced none following

private theorem Ends.behind {following : List Token} (hEnds : Ends following)
    (previous : Option Token) : wellPlaced previous following := by
  rw [wellPlaced_of_endsOperand hEnds.ends previous none]
  exact hEnds.placed

private theorem Ends.closeParen {following : List Token} (hEnds : Ends following) {t : Token}
    (hKind : t.kind = .closeParen) : Ends (t :: following) where
  ends := by simp [endsOperand, hKind]
  placed := (wellPlaced_closeParen hKind).2 ⟨hEnds.ends, hEnds.behind _⟩

private theorem ends_operator {following : List Token} {t : Token}
    (hKind : t.kind = .operator ∨ t.kind = .comma) (hPlaced : wellPlaced (some t) following) :
    Ends (t :: following) where
  ends := by rcases hKind with hKind | hKind <;> simp [endsOperand, hKind]
  placed := by
    rwa [wellPlaced_word]
    rcases hKind with hKind | hKind <;> simp [Token.isParen, Kind.isParen, hKind]

private theorem startsOperand_of_kind {t : Token}
    (hKind : t.kind = .openParen ∨ t.kind = .operator ∨ t.kind = .comma) :
    startsOperand (some t) := by
  rcases hKind with hKind | hKind | hKind <;> simp [startsOperand, hKind]

/-- **A phrase has well placed parentheses** wherever an operand may start and
end. -/
private theorem wellPlaced_phrase {n : Symbol} {b : Bracketed} {es : List Expr}
    (hPhrase : Phrase n b es) (hProper : b.Proper) {previous : Option Token}
    {following : List Token} (hStart : startsOperand previous) (hEnds : Ends following) :
    wellPlaced previous (b.tokens ++ following) := by
  induction hPhrase generalizing previous following with
  | @number t d hKind hSpells =>
      rw [tokens, List.cons_append, wellPlaced_word hProper.1]
      exact hEnds.behind _
  | @name t hKind =>
      rw [tokens, List.cons_append, wellPlaced_word hProper.1]
      exact hEnds.behind _
  | @group opening closing inside e hInside ih =>
      obtain ⟨hOpening, hClosing, hProperInside, -⟩ := hProper
      obtain ⟨t, rest, hTokens, hHead⟩ := head?_phrase hInside hProperInside
      rw [tokens, List.cons_append, List.append_assoc, List.cons_append,
        wellPlaced_openParen hOpening]
      refine ⟨.inr ⟨hStart, by simpa [hTokens] using hHead⟩, ih hProperInside ?_ ?_⟩
      · exact startsOperand_of_kind (.inl hOpening)
      · exact hEnds.closeParen hClosing
  | @emptyCall name opening closing hName =>
      obtain ⟨-, hOpening, hClosing, -, -⟩ := hProper
      rw [tokens, List.cons_append, List.cons_append,
        wellPlaced_word (isParen_of_namesFunction hName), wellPlaced_openParen hOpening]
      exact ⟨.inl hName, (hEnds.closeParen hClosing).behind _⟩
  | @call name opening closing inside es hName _ ih =>
      obtain ⟨-, hOpening, hClosing, hProperInside, -⟩ := hProper
      rw [tokens, List.cons_append, List.cons_append, List.append_assoc, List.cons_append,
        wellPlaced_word (isParen_of_namesFunction hName), wellPlaced_openParen hOpening]
      refine ⟨.inl hName, ih hProperInside ?_ ?_⟩
      · exact startsOperand_of_kind (.inl hOpening)
      · exact hEnds.closeParen hClosing
  | @operation op t x y a b hOp _ _ ihLeft ihRight =>
      obtain ⟨hLeft, -, -, hRight⟩ := hProper.of_append
      have hKind := kind_of_operator? hOp
      rw [tokens_append, tokens, List.append_assoc, List.cons_append]
      refine ihLeft hLeft hStart (ends_operator (.inl hKind) (ihRight hRight ?_ hEnds))
      exact startsOperand_of_kind (.inr (.inl hKind))
  | term _ ih => exact ih hProper hStart hEnds
  | power _ ih => exact ih hProper hStart hEnds
  | atom _ ih => exact ih hProper hStart hEnds
  | lastArgument _ ih => exact ih hProper hStart hEnds
  | @moreArguments t x y e es hComma _ _ ihFirst ihMore =>
      obtain ⟨hFirst, -, -, hMore⟩ := hProper.of_append
      rw [tokens_append, tokens, List.append_assoc, List.cons_append]
      refine ihFirst hFirst hStart (ends_operator (.inr hComma) (ihMore hMore ?_ hEnds))
      exact startsOperand_of_kind (.inr (.inr hComma))

/-- **Derivable sources have well placed parentheses.** -/
theorem wellPlaced_of_derives {source : List Char} {e : Expr}
    (hDerives : Derives .expr source [e]) : WellPlaced source := by
  obtain ⟨b, hTokens, hProper, hPhrase⟩ := exists_phrase hDerives 0
  refine ⟨b.tokens, hTokens, ?_⟩
  have hEnds : Ends [] := ⟨rfl, rfl⟩
  have hPlaced : wellPlaced none (b.tokens ++ []) := wellPlaced_phrase hPhrase hProper rfl hEnds
  rwa [List.append_nil] at hPlaced

/-! ## Putting an operand in front -/

private theorem Phrase.weaken {n m : Symbol} {x : Bracketed} {e : Expr} (hPhrase : Phrase n x [e])
    (hFloor : m.floor ≤ n.floor) (hn : n ≠ .arguments) (hm : m ≠ .arguments) : Phrase m x [e] :=
  Symbol.weaken (P := fun n => Phrase n x [e]) .term .power .atom hFloor hn hm hPhrase

/-- Of two operators in a row the second groups at its left, or the first
takes what the second makes as its right operand. -/
private theorem floor_operand (op op' : Operator) :
    (Symbol.operand op' .left).floor ≤ (Symbol.ofOperator op).floor ∨
      (Symbol.operand op .right).floor ≤ (Symbol.ofOperator op').floor := by
  cases op <;> cases op' <;> decide

section

variable {op : Operator} {t : Token} {x : Bracketed} {a : Expr} (hOp : t.operator? = some op)
  (hAtom : Phrase .atom x [a])
include hOp hAtom

private theorem exists_prepend_operand {y : Bracketed} {b : Expr} {n m : Symbol}
    (hPhrase : Phrase n y [b]) (hn : n ≠ .arguments) (hm : m ≠ .arguments)
    (hOperand : (Symbol.operand op .right).floor ≤ n.floor)
    (hFloor : m.floor ≤ (Symbol.ofOperator op).floor) :
    ∃ e, Phrase m (x ++ word t y) [e] := by
  have hLeft := hAtom.weaken (m := .operand op .left) (by cases op <;> decide) (by decide)
    (Symbol.operand_ne op .left)
  have hRight := hPhrase.weaken hOperand hn (Symbol.operand_ne op .right)
  exact ⟨_, (Phrase.operation hOp hLeft hRight).weaken hFloor (Symbol.ofOperator_ne op) hm⟩

/-- An operand with its operator in front of a phrase makes a phrase, of any
level that is not above either. -/
private theorem exists_prepend {n : Symbol} {y : Bracketed} {es : List Expr}
    (hPhrase : Phrase n y es) {m : Symbol} (hn : n ≠ .arguments) (hm : m ≠ .arguments)
    (hFloor : m.floor ≤ n.floor) (hFloorOp : m.floor ≤ (Symbol.ofOperator op).floor) :
    ∃ e, Phrase m (x ++ word t y) [e] := by
  have hAtomRight : (Symbol.operand op .right).floor ≤ Symbol.atom.floor := by
    cases op <;> decide
  induction hPhrase generalizing m with
  | number hKind hSpells =>
      exact exists_prepend_operand hOp hAtom (.number hKind hSpells) hn hm hAtomRight hFloorOp
  | name hKind =>
      exact exists_prepend_operand hOp hAtom (.name hKind) hn hm hAtomRight hFloorOp
  | group hInside =>
      exact exists_prepend_operand hOp hAtom (.group hInside) hn hm hAtomRight hFloorOp
  | emptyCall hName =>
      exact exists_prepend_operand hOp hAtom (.emptyCall hName) hn hm hAtomRight hFloorOp
  | call hName hArguments =>
      exact exists_prepend_operand hOp hAtom (.call hName hArguments) hn hm hAtomRight hFloorOp
  | @operation op' t' l r _ _ hOp' hLeft hRight ihLeft =>
      rcases floor_operand op op' with hFirst | hSecond
      · obtain ⟨e, hFront⟩ := ihLeft (Symbol.operand_ne op' .left) (Symbol.operand_ne op' .left)
          (Nat.le_refl _) hFirst
        rw [← word_append, ← Bracketed.append_assoc]
        exact ⟨_, (Phrase.operation hOp' hFront hRight).weaken hFloor hn hm⟩
      · exact exists_prepend_operand hOp hAtom (.operation hOp' hLeft hRight) hn hm hSecond
          hFloorOp
  | term _ ih => exact ih (by decide) hm (Nat.le_trans hFloor (by decide)) hFloorOp
  | power _ ih => exact ih (by decide) hm (Nat.le_trans hFloor (by decide)) hFloorOp
  | atom _ ih => exact ih (by decide) hm (Nat.le_trans hFloor (by decide)) hFloorOp
  | lastArgument => exact absurd rfl hn
  | moreArguments => exact absurd rfl hn

private theorem exists_prepend_expr {y : Bracketed} {b : Expr} (hPhrase : Phrase .expr y [b]) :
    ∃ e, Phrase .expr (x ++ word t y) [e] :=
  exists_prepend hOp hAtom hPhrase (by decide) (by decide) (Nat.le_refl _) (by cases op <;> decide)

private theorem exists_prepend_arguments {y : Bracketed} {es : List Expr}
    (hPhrase : Phrase .arguments y es) : ∃ es', Phrase .arguments (x ++ word t y) es' := by
  generalize hn : Symbol.arguments = n at hPhrase
  cases hPhrase with
  | lastArgument hLast =>
      obtain ⟨e, hLast⟩ := exists_prepend_expr hOp hAtom hLast
      exact ⟨_, .lastArgument hLast⟩
  | moreArguments hComma hFirst hMore =>
      obtain ⟨e, hFirst⟩ := exists_prepend_expr hOp hAtom hFirst
      rw [← word_append, ← Bracketed.append_assoc]
      exact ⟨_, .moreArguments hComma hFirst hMore⟩
  | @operation op' => exact absurd hn.symm (Symbol.ofOperator_ne op')
  | _ => cases hn

end

/-! ## Alternations with well placed parentheses -/

/-- The sequence is an expression or, where commas separate, a list of
arguments. -/
private def Complete (commas : Prop) (b : Bracketed) : Prop :=
  (∃ e, Phrase .expr b [e]) ∨ (commas ∧ ∃ es, Phrase .arguments b es)

/-- The sequence goes on behind an operand. -/
private def Continues (commas : Prop) (b : Bracketed) : Prop :=
  b = .nil ∨ ∃ t rest, b = word t rest ∧ Complete commas rest ∧
    (t.operator?.isSome ∨ (commas ∧ t.kind = .comma))

private theorem Complete.arguments {b : Bracketed} {commas : Prop} (hComplete : Complete commas b) :
    ∃ es, Phrase .arguments b es := by
  rcases hComplete with ⟨e, hPhrase⟩ | ⟨-, hPhrase⟩
  · exact ⟨_, .lastArgument hPhrase⟩
  · exact hPhrase

/-- An operand and what continues it are complete. -/
private theorem complete_of_atom {commas : Prop} {x y : Bracketed} {a : Expr}
    (hAtom : Phrase .atom x [a]) (hContinues : Continues commas y) : Complete commas (x ++ y) := by
  have hExpr : Phrase .expr x [a] := .term (.power (.atom hAtom))
  rcases hContinues with rfl | ⟨t, rest, rfl, hComplete, hOp | ⟨hCommas, hComma⟩⟩
  · rw [Bracketed.append_nil]
    exact .inl ⟨a, hExpr⟩
  · obtain ⟨op, hOp⟩ := Option.isSome_iff_exists.1 hOp
    rcases hComplete with ⟨e, hPhrase⟩ | ⟨hCommas, es, hPhrase⟩
    · exact .inl (exists_prepend_expr hOp hAtom hPhrase)
    · exact .inr ⟨hCommas, exists_prepend_arguments hOp hAtom hPhrase⟩
  · obtain ⟨es, hPhrase⟩ := hComplete.arguments
    exact .inr ⟨hCommas, _, .moreArguments hComma hExpr hPhrase⟩

/-- The phase in front of a sequence tells what it is. -/
private def Wanted (commas : Prop) : Phase → Bracketed → Prop
  | .operand => Complete commas
  | .operator => Continues commas

/-- The items of a bracketed sequence are nested. -/
theorem nested_items {b : Bracketed} (hProper : b.Proper) (depth : Nat) :
    Nested (b.items depth) := by
  induction b generalizing depth with
  | nil => exact .nil
  | word t rest ih => exact .plain rfl (ih hProper.2.2 depth)
  | group opening closing inside rest ihInside ih =>
      exact (ihInside hProper.2.2.1 (depth + 1)).append (ih hProper.2.2.2 depth)
  | call name opening closing inside rest ihInside ih =>
      obtain ⟨-, hKind, -⟩ := exists_function hProper.1
      refine .call ?_ hKind (ihInside hProper.2.2.2.1 (depth + 1)) (ih hProper.2.2.2.2 depth)
      rw [length_items]

/-- A sequence of nothing but pairs of parentheses has an empty pair, which is
not well placed. -/
private theorem eq_nil_of_size {b : Bracketed} (hProper : b.Proper) (hSize : b.size = 0)
    {previous : Option Token} {following : List Token}
    (hPlaced : wellPlaced previous (b.tokens ++ following))
    (hApart : previous.any namesFunction = true → b.startsGroup = false) : b = .nil := by
  induction b generalizing previous following with
  | nil => rfl
  | word t rest => cases hSize
  | call name opening closing inside rest => cases hSize
  | group opening closing inside rest ihInside =>
      obtain ⟨hOpening, hClosing, hInside, -⟩ := hProper
      rw [tokens, List.cons_append, List.append_assoc, List.cons_append,
        wellPlaced_openParen hOpening] at hPlaced
      obtain ⟨hPair, hPlaced⟩ := hPlaced
      have hNotName : namesFunction opening = false := by simp [namesFunction, hOpening]
      obtain rfl : inside = .nil := ihInside hInside (Nat.eq_zero_of_add_eq_zero_right hSize)
        hPlaced (by simp [hNotName])
      rcases hPair with hName | ⟨-, hNext⟩
      · cases hApart hName
      · exact absurd hClosing (hNext closing rfl)

section

variable {t : Token}

/-- An operand of a single token is a numeral or a name. -/
theorem kind_of_ofToken? (hValue : ∃ e, Expr.ofToken? t = .ok e) (hSpelled : t.Spelled) :
    (t.kind = .number ∧ ∃ d, Spells t.lexeme d) ∨ t.kind = .name := by
  rcases kind_of_exists_ofToken? hValue with hKind | hKind
  · have hLiteral := Number.literal?_eq (hKind ▸ hSpelled.ofKind)
    obtain ⟨e, hValue⟩ := hValue
    simp only [Expr.ofToken?, hKind, hLiteral] at hValue
    cases hNumeral : Number.numeral? t.lexeme with
    | none =>
        rw [hNumeral] at hValue
        cases hValue
    | some d => exact .inl ⟨hKind, d, Number.numeral?_eq_some_iff.1 hNumeral⟩
  · exact .inr hKind

/-- An operand of a single token is an atom, behind which no operand
starts. -/
private theorem atom_of_ofToken? (hValue : ∃ e, Expr.ofToken? t = .ok e) (hSpelled : t.Spelled) :
    (∃ a, Phrase .atom (word t .nil) [a]) ∧ startsOperand (some t) = false ∧
      endsOperand (some t) = false := by
  rcases kind_of_ofToken? hValue hSpelled with ⟨hKind, d, hSpells⟩ | hKind
  · exact ⟨⟨_, .number hKind hSpells⟩, by simp [startsOperand, hKind],
      by simp [endsOperand, hKind]⟩
  · exact ⟨⟨_, .name hKind⟩, by simp [startsOperand, hKind], by simp [endsOperand, hKind]⟩

end

/-- Where an operand may end, an alternation wants an operator next. -/
private theorem eq_operator_of_endsOperand {b : Bracketed} (hProper : b.Proper)
    (hSpelled : ∀ t ∈ b.tokens, t.Spelled) {depth : Nat} {separator : Option Int} {p : Phase}
    {following : List Token} (hItems : Alternates separator p (b.items depth) .operator)
    (hEnd : endsOperand (b.tokens ++ following).head?) : p = .operator := by
  cases b with
  | nil =>
      cases hItems
      rfl
  | word t rest =>
      obtain ⟨-, hValue, -⟩ | ⟨hPhase, -, -⟩ := hItems.of_plain rfl
      · rw [tokens, List.cons_append, List.head?_cons,
          (atom_of_ofToken? hValue (hSpelled t (by simp [tokens]))).2.2] at hEnd
        cases hEnd
      · exact hPhase
  | group opening closing inside rest =>
      simp [tokens, endsOperand, hProper.1] at hEnd
  | call name opening closing inside rest =>
      obtain ⟨-, hKind, -⟩ := exists_function hProper.1
      simp [tokens, endsOperand, hKind] at hEnd

/-- What is known of a part of a source that is read, when its parentheses are
well placed: the tokens in front of it and behind it, and the phase in front of
it, fit its first and its last item. -/
private structure Aligned (depth : Nat) (separator : Option Int) (p : Phase)
    (previous : Option Token) (b : Bracketed) : Prop where
  proper : b.Proper
  spelled : ∀ t ∈ b.tokens, t.Spelled
  bounded : ∀ x ∈ separator, x ≤ operandPriority + nestingStep * depth
  alternates : Alternates separator p (b.items depth) .operator
  placed : ∃ following, wellPlaced previous (b.tokens ++ following)
  apart : previous.any namesFunction = true → b.startsGroup = false
  phase : startsOperand previous = true → p = .operand

namespace Aligned

variable {depth : Nat} {separator : Option Int} {p : Phase} {previous : Option Token}

/-- A word is an operand, or it stands between two of them. -/
private theorem of_word {t : Token} {rest : Bracketed}
    (hAligned : Aligned depth separator p previous (word t rest)) :
    (p = .operand ∧ (∃ a, Phrase .atom (word t .nil) [a]) ∧
      Aligned depth separator .operator (some t) rest) ∨
    (p = .operator ∧ (t.operator?.isSome ∨
        (separator = some (operandPriority + nestingStep * depth : Int) ∧ t.kind = .comma)) ∧
      Aligned depth separator .operand (some t) rest) := by
  obtain ⟨hParen, hCall, hRest⟩ := hAligned.proper
  obtain ⟨following, hPlaced⟩ := hAligned.placed
  have hSpelled := hAligned.spelled
  simp only [tokens, List.mem_cons, forall_eq_or_imp] at hSpelled
  rw [tokens, List.cons_append, wellPlaced_word hParen] at hPlaced
  have hNames : (some t).any namesFunction = true → rest.startsGroup = false := hCall
  obtain ⟨rfl, hValue, hItems⟩ | ⟨rfl, hOp, hItems⟩ := hAligned.alternates.of_plain rfl
  · obtain ⟨hAtom, hStart, -⟩ := atom_of_ofToken? hValue hSpelled.1
    have hPhase : startsOperand (some t) = true → Phase.operator = .operand := by
      intro hStarts
      rw [hStart] at hStarts
      cases hStarts
    exact .inl ⟨rfl, hAtom, hRest, hSpelled.2, hAligned.bounded, hItems, ⟨_, hPlaced⟩, hNames,
      hPhase⟩
  · refine .inr ⟨rfl, hOp.imp_right fun hComma => ?_, hRest, hSpelled.2, hAligned.bounded, hItems,
      ⟨_, hPlaced⟩, hNames, fun _ => rfl⟩
    exact ⟨hComma.1.trans (congrArg some (priorityAt_comma hComma.2 depth)), hComma.2⟩

/-- A group is an operand. A separator around it is too weak to stand inside
it. -/
private theorem of_group {opening closing : Token} {inside rest : Bracketed}
    (hAligned : Aligned depth separator p previous (group opening closing inside rest)) :
    p = .operand ∧ (∀ x ∈ separator, x < operandPriority + nestingStep * (depth + 1 : Nat)) ∧
      Aligned (depth + 1) separator .operand (some opening) inside ∧
      Aligned depth separator .operator (some closing) rest := by
  obtain ⟨hOpening, hClosing, hInside, hRest⟩ := hAligned.proper
  obtain ⟨following, hPlaced⟩ := hAligned.placed
  have hSpelled := hAligned.spelled
  simp only [tokens, List.mem_cons, List.mem_append, or_imp, forall_and, forall_eq] at hSpelled
  rw [tokens, List.cons_append, List.append_assoc, List.cons_append,
    wellPlaced_openParen hOpening] at hPlaced
  obtain ⟨hName | ⟨hStart, -⟩, hPlaced⟩ := hPlaced
  · cases hAligned.apart hName
  · obtain rfl := hAligned.phase hStart
    obtain ⟨q, hFront, hBack⟩ :=
      hAligned.alternates.split rfl (nested_items hInside (depth + 1)).closed
    obtain ⟨last, hBehind⟩ := wellPlaced_of_append hPlaced
    obtain ⟨hEnd, hBehind⟩ := (wellPlaced_closeParen hClosing).1 hBehind
    obtain rfl := eq_operator_of_endsOperand hRest hSpelled.2.2.2 hBack hEnd
    have hWeak : ∀ x ∈ separator, x < operandPriority + nestingStep * (depth + 1 : Nat) :=
      fun x hx => lt_operandPriority_succ (hAligned.bounded x hx)
    exact ⟨rfl, hWeak,
      ⟨hInside, hSpelled.2.1, fun x hx => Int.le_of_lt (hWeak x hx), hFront, ⟨_, hPlaced⟩,
        by simp [namesFunction, hOpening], fun _ => rfl⟩,
      ⟨hRest, hSpelled.2.2.2, hAligned.bounded, hBack, ⟨_, hBehind⟩,
        by simp [namesFunction, hClosing], by simp [startsOperand, hClosing]⟩⟩

/-- A call is an operand, and its own separator stands inside it. -/
private theorem of_call {name opening closing : Token} {inside rest : Bracketed}
    (hAligned : Aligned depth separator p previous (call name opening closing inside rest)) :
    p = .operand ∧ (inside = .nil ∨
        ∃ own, Aligned (depth + 1) own .operand (some opening) inside) ∧
      Aligned depth separator .operator (some closing) rest := by
  obtain ⟨hName, hOpening, hClosing, hInside, hRest⟩ := hAligned.proper
  obtain ⟨following, hPlaced⟩ := hAligned.placed
  have hSpelled := hAligned.spelled
  simp only [tokens, List.mem_cons, List.mem_append, or_imp, forall_and, forall_eq] at hSpelled
  rw [tokens, List.cons_append, List.cons_append, List.append_assoc, List.cons_append,
    wellPlaced_word (isParen_of_namesFunction hName), wellPlaced_openParen hOpening] at hPlaced
  obtain ⟨-, hPlaced⟩ := hPlaced
  obtain ⟨last, hBehind⟩ := wellPlaced_of_append hPlaced
  obtain ⟨-, hBehind⟩ := (wellPlaced_closeParen hClosing).1 hBehind
  obtain ⟨rfl, hBack, hArguments⟩ := hAligned.alternates.of_call (by rw [length_items])
  have hApart : (some opening).any namesFunction = true → inside.startsGroup = false := by
    simp [namesFunction, hOpening]
  refine ⟨rfl, ?_, hRest, hSpelled.2.2.2.2, hAligned.bounded, hBack, ⟨_, hBehind⟩,
    by simp [namesFunction, hClosing], by simp [startsOperand, hClosing]⟩
  by_cases hSize : inside.size = 0
  · exact .inl (eq_nil_of_size hInside hSize hPlaced hApart)
  · have hSome : inside.items (depth + 1) ≠ [] := by
      rwa [← List.length_pos_iff, length_items, Nat.pos_iff_ne_zero]
    have hDeeper := priorityAt_add_nestingStep hName depth
    exact .inr ⟨some (priorityAt depth name + nestingStep), hInside, hSpelled.2.2.1,
      by simp [hDeeper], hArguments hSome, ⟨_, hPlaced⟩, hApart, fun _ => rfl⟩

/-- **An alternation with well placed parentheses is a phrase**, or what
continues one. -/
private theorem wanted {b : Bracketed} (hAligned : Aligned depth separator p previous b) :
    Wanted (separator = some (operandPriority + nestingStep * depth : Int)) p b := by
  induction b generalizing depth separator p previous with
  | nil =>
      cases hAligned.alternates
      exact .inl rfl
  | word t rest ih =>
      obtain ⟨rfl, ⟨a, hAtom⟩, hRest⟩ | ⟨rfl, hOp, hRest⟩ := hAligned.of_word
      · exact complete_of_atom hAtom (ih hRest)
      · exact .inr ⟨t, rest, rfl, ih hRest, hOp⟩
  | group opening closing inside rest ihInside ih =>
      obtain ⟨rfl, hWeak, hInside, hRest⟩ := hAligned.of_group
      rcases ihInside hInside with ⟨e, hPhrase⟩ | ⟨hCommas, -⟩
      · exact complete_of_atom (.group hPhrase) (ih hRest)
      · exact absurd (hWeak _ hCommas) (Int.lt_irrefl _)
  | call name opening closing inside rest ihInside ih =>
      have hName := hAligned.proper.1
      obtain ⟨rfl, rfl | ⟨own, hInside⟩, hRest⟩ := hAligned.of_call
      · exact complete_of_atom (.emptyCall hName) (ih hRest)
      · obtain ⟨es, hPhrase⟩ := Complete.arguments (ihInside hInside)
        exact complete_of_atom (.call hName hPhrase) (ih hRest)

end Aligned

end Grammar

/-! ## Sources that are read -/

namespace Expr

open Grammar Item

/-- **What a source that is read lacks to be derivable**: its parentheses have
to be well placed. -/
theorem derives_iff_of_parse {source : List Char} {e : Expr} (hParse : parse source = .ok e) :
    Derives .expr source [e] ↔ WellPlaced source := by
  refine ⟨wellPlaced_of_derives, fun hPlaced => ?_⟩
  obtain ⟨is, hItems, hRead⟩ := bind_eq_ok_iff.1 hParse
  obtain ⟨b, hProper, hTokens, -, rfl⟩ := Bracketed.exists_of_itemsOf? hItems
  obtain ⟨ts, hSource, hPlaced⟩ := hPlaced
  obtain rfl : b.tokens = ts := by
    rw [Token.ofSource?_eq, hTokens] at hSource
    exact Except.ok.inj hSource
  rw [← List.append_nil b.tokens] at hPlaced
  have hSpelled := Token.spelled_of_mem hTokens
  have hAlternates := Item.alternates_of_ofItems? (nested_items hProper 0) hRead
  have hAligned : Aligned 0 none .operand none b :=
    ⟨hProper, hSpelled, by simp, hAlternates, ⟨_, hPlaced⟩, by simp, fun _ => rfl⟩
  obtain ⟨e', hPhrase⟩ | ⟨hNone, -⟩ := hAligned.wanted
  · rw [(hPhrase.reads (by decide) 0).read] at hRead
    cases hRead
    have hDerives := hPhrase.derives hProper hSpelled
    rwa [Token.flatMap_lexeme hTokens] at hDerives
  · cases hNone

section

/-- The item of a name that is a single letter. -/
private def letter (c : Char) (start : Nat) (priority : Int) : Item :=
  ⟨⟨.name, [c], ⟨start, start + 1⟩⟩, priority, none⟩

/-- The item of an operator. -/
private def sign (c : Char) (start : Nat) (priority : Int) : Item :=
  ⟨⟨.operator, [c], ⟨start, start + 1⟩⟩, priority, none⟩

private theorem ofItems?_x (follows : Span) :
    ofItems? follows [letter 'x' 0 1000] = .ok (var "x") := by
  rw [ofItems?_operand follows (by decide)]
  rfl

private theorem ofItems?_y (follows : Span) :
    ofItems? follows [letter 'y' 3 1050] = .ok (var "y") := by
  rw [ofItems?_operand follows (by decide)]
  rfl

/-- Parentheses around a single operand are well placed. -/
theorem derives_iff_of_parse_product :
    let source := "x*(y)".toList
    let e := binary .mul (var "x") (var "y")
    parse source = .ok e ∧ Derives .expr source [e] := by
  intro source e
  have hItems : itemsOf? source =
      .ok ([letter 'x' 0 1000] ++ sign '*' 1 10 :: [letter 'y' 3 1050]) := by decide
  have hProduct : ∀ follows,
      ofItems? follows ([letter 'x' 0 1000] ++ sign '*' 1 10 :: [letter 'y' 3 1050]) = _ :=
    ofItems?_append (by simp) rfl rfl rfl (by decide) (by decide) (by decide)
  have hParse : parse source = .ok e := by
    rw [parse, hItems]
    show ofItems? _ _ = _
    rw [hProduct, ofItems?_x, ofItems?_y]
    rfl
  have hPlaced : WellPlaced source := ⟨_, rfl, by decide⟩
  exact ⟨hParse, (derives_iff_of_parse hParse).2 hPlaced⟩

/-- The parentheses of `x*(y+)4` enclose no operand, and it is read. -/
theorem parse_not_derivable :
    let source := "x*(y+)4".toList
    let four := const (Number.ofPattern false (Number.Decimal.pattern ⟨4, 0⟩))
    parse source = .ok (binary .mul (var "x") (binary .add (var "y") four)) ∧
      ¬ ∃ e, Derives .expr source [e] := by
  intro source four
  constructor
  · let digit : Item := ⟨⟨.number, ['4'], ⟨6, 7⟩⟩, 1000, none⟩
    let sum := [letter 'y' 3 1050] ++ sign '+' 4 51 :: [digit]
    have hItems : itemsOf? source = .ok ([letter 'x' 0 1000] ++ sign '*' 1 10 :: sum) := by
      decide
    have hProduct : ∀ follows,
        ofItems? follows ([letter 'x' 0 1000] ++ sign '*' 1 10 :: sum) = _ :=
      ofItems?_append (by simp) rfl rfl rfl (by decide) (by decide) (by decide)
    have hSum : ∀ follows,
        ofItems? follows ([letter 'y' 3 1050] ++ sign '+' 4 51 :: [digit]) = _ :=
      ofItems?_append (by simp) rfl rfl rfl (by decide) (by decide) (by decide)
    have hFour (follows : Span) : ofItems? follows [digit] = .ok four := by
      rw [ofItems?_operand follows (by decide)]
      rfl
    rw [parse, hItems]
    show ofItems? _ _ = _
    rw [hProduct, ofItems?_x, hSum, ofItems?_y, hFour]
    rfl
  · rintro ⟨e, hDerives⟩
    obtain ⟨ts, hTokens, hPlaced⟩ := wellPlaced_of_derives hDerives
    have hRefused : (Token.ofSource? source).map (Token.wellPlaced none) = .ok false := by decide
    rw [hTokens] at hRefused
    simp [Except.map, hPlaced] at hRefused

end

end Expr

end Fluxion
