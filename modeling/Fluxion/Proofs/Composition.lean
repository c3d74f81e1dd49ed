import Fluxion.Proofs.Climbing
import Fluxion.Proofs.Placement
import Fluxion.Proofs.Relocation

/-!
# Accepted sources are put together

A source that is accepted need not be derivable, and what its parentheses hold
need not be an expression. It can be put into parentheses all the same, and the
pairs be joined by an operator or made the arguments of a call: inside of the
parentheses its items are those it has alone, moved, and everything that they
are joined with is weaker. So the invariant of the items of a phrase holds of
the items of every accepted source, and the steps that lead from phrase to
phrase lead on from there.

## Main results

* `Grammar.reads_of_ofItems?` — accepted items have the invariant of phrases.
* `Grammar.exists_stands` — an accepted source stands for its expression at
  every place and every depth.
* `Expr.parse_compositional` — the sources put together stand for the
  expressions put together.
-/

namespace Fluxion

open Token Item Bracketed

/-! ## Items that are accepted -/

namespace Expr

/-- What a list of items follows matters only if it is empty. -/
theorem ofItems?_follows {items : List Item} (hSome : items ≠ []) (follows follows' : Span) :
    ofItems? follows items = ofItems? follows' items := by
  obtain ⟨first, rest, rfl⟩ := List.exists_cons_of_ne_nil hSome
  rw [ofItems?, ofItems?]

theorem ne_nil_of_ofItems? {items : List Item} {follows : Span} {e : Expr}
    (hRead : ofItems? follows items = .ok e) : items ≠ [] := by
  rintro rfl
  rw [ofItems?_nil] at hRead
  cases hRead

end Expr

namespace Item

/-- Nothing is refused on the top level of items that are accepted. -/
theorem standing_of_ofItems? {items : List Item} {follows : Span} {e : Expr}
    (hNested : Nested items) (hRead : Expr.ofItems? follows items = .ok e) :
    ∀ item ∈ heads 0 items, item.checkStanding = .ok () := by
  obtain ⟨first, rest, rfl⟩ := List.exists_cons_of_ne_nil (Expr.ne_nil_of_ofItems? hRead)
  by_cases hReach : first.reach = some rest.length
  · have hName : first.token.kind = .name := by
      by_contra hOther
      have hNone := (hNested.of_cons hOther).1
      rw [hReach] at hNone
      cases hNone
    have hCovered : first.covered = rest.length := by rw [covered, hReach, Option.getD_some]
    rw [heads_of_covered hCovered, List.forall_mem_singleton]
    exact checkStanding_of_kind (.inr hName)
  · by_cases hSingle : rest = []
    · subst hSingle
      rw [Expr.ofItems?_operand follows (by simpa using hReach)] at hRead
      have hHeads : heads 0 [first] = [first] := rfl
      rw [hHeads, List.forall_mem_singleton]
      exact checkStanding_of_kind (kind_of_exists_ofToken? ⟨e, hRead⟩)
    · rw [Expr.ofItems?_operation follows hReach hSingle] at hRead
      obtain ⟨_, hStanding, -⟩ := bind_eq_ok_iff.1 hRead
      exact (checkTopLevel_eq_ok_iff _).1 hStanding

end Item

namespace Grammar

theorem one_le_basePriority (t : Token) : 1 ≤ t.basePriority := by
  rw [basePriority]
  cases t.operator? with
  | none => decide
  | some op => exact op.priority_bounds.1

/-- **Accepted items have the invariant of phrases**, whether they are a phrase
or not. -/
theorem reads_of_ofItems? {b : Bracketed} (hProper : b.Proper) {depth : Nat} {follows : Span}
    {e : Expr} (hRead : Expr.ofItems? follows (b.items depth) = .ok e) :
    Reads .expr depth (b.items depth) e := by
  have hSome := Expr.ne_nil_of_ofItems? hRead
  have hNested := nested_items hProper depth
  have hLies : ∀ item ∈ heads 0 (b.items depth), item.LiesFrom depth := fun item hItem =>
    liesFrom_items b depth item (mem_of_mem_heads hItem)
  refine ⟨⟨hSome, hNested.closed, standing_of_ofItems? hNested hRead, hLies, ?_⟩, ?_⟩
  · intro item hItem
    obtain ⟨d, hDepth, hPriority⟩ := hLies item hItem
    have hBase := one_le_basePriority item.token
    rw [hPriority, priorityAt]
    simp only [Symbol.floor, nestingStep]
    omega
  · intro follows'
    rw [Expr.ofItems?_follows hSome follows' follows, hRead]

/-! ## Texts that stand for expressions -/

/-- From byte `start` on, the text has the tokens of the sequence, and at every
depth their items stand for the expression. -/
structure Stands (n : Symbol) (start : Nat) (s : List Char) (b : Bracketed) (e : Expr) :
    Prop where
  tokens : from? start s = .ok b.tokens
  proper : b.Proper
  reads : ∀ depth, Reads n depth (b.items depth) e

/-- From byte `start` on, the text has the tokens of the sequence, and cut at the
commas of their depth, whatever it is, their items stand for the expressions. -/
structure StandsAll (start : Nat) (s : List Char) (b : Bracketed) (es : List Expr) : Prop where
  tokens : from? start s = .ok b.tokens
  proper : b.Proper
  reads : ∀ depth, ReadsAll depth (b.items depth) es

/-- **An accepted source stands for its expression** at every place and every
depth. -/
theorem exists_stands {s : List Char} {e : Expr} (hParse : Expr.parse s = .ok e) (start : Nat) :
    ∃ b, Stands .expr start s b e ∧ b.height = nesting 0 s := by
  obtain ⟨items, hItems, hRead⟩ := bind_eq_ok_iff.1 hParse
  obtain ⟨b, hProper, hTokens, -, rfl⟩ := exists_of_itemsOf? hItems
  let place := Span.shift start
  refine ⟨b.move place, ⟨?_, hProper.move place, fun depth => ?_⟩, ?_⟩
  · have hShifted := from?_shift hTokens start
    rwa [Nat.zero_add, ← tokens_move] at hShifted
  · have hMoved := items_move place b 0 depth
    rw [Nat.zero_add] at hMoved
    have hReadMoved :
        Expr.ofItems? (place (Expr.endOf s)) ((b.move place).items depth) = .ok e := by
      rw [hMoved, Expr.ofItems?_move, hRead]
      rfl
    exact reads_of_ofItems? (hProper.move place) hReadMoved
  · rw [height_move, nesting_source hTokens hProper]

namespace Stands

variable {n : Symbol} {start : Nat} {s t : List Char} {x y : Bracketed} {a b e : Expr}

theorem weaken {m : Symbol} (hStands : Stands n start s x e) (hFloor : m.floor ≤ n.floor) :
    Stands m start s x e :=
  ⟨hStands.tokens, hStands.proper, fun depth => (hStands.reads depth).weaken hFloor⟩

/-- A text in parentheses stands for the same expression, and binds like an
operand. -/
theorem enclosed (hInside : Stands .expr (start + Piece.byteLength ['(']) s x e) :
    ∃ opening closing,
      Stands .atom start ('(' :: (s ++ [')'])) (group opening closing x nil) e := by
  obtain ⟨opening, closing, hOpening, hClosing, hTokens⟩ := from?_enclosed hInside.tokens
  refine ⟨opening, closing, hTokens, ⟨hOpening, hClosing, hInside.proper, trivial⟩, fun depth => ?_⟩
  have hReads := hInside.reads (depth + 1)
  rw [items, items, List.append_nil]
  exact ⟨hReads.slice.deeper, hReads.read⟩

/-- Two texts with an operator between them stand for the operation. -/
theorem operation {op : Operator} (hLeft : Stands (.operand op .left) start s x a)
    (hRight : Stands (.operand op .right)
      (start + Piece.byteLength s + Piece.byteLength [op.symbol]) t y b)
    (hs : Edged s) (ht : Edged t) :
    ∃ sign,
      Stands (.ofOperator op) start (s ++ op.symbol :: t) (x ++ word sign y) (.binary op a b) := by
  have hSymbol := Kind.ofChar?_symbol op
  obtain ⟨sign, hKind, hLexeme, hTokens⟩ := from?_around hSymbol
    (fun c hc => joins_eq_false (hSymbol.symm ▸ hs.last c hc))
    (fun c hc => joins_eq_false (hSymbol.symm ▸ (ht.head c hc).symm)) hLeft.tokens hRight.tokens
  have hOp : sign.operator? = some op := by
    simp [Token.operator?, hKind, hLexeme, Operator.ofText?]
  have hParen : sign.isParen = false := isParen_eq_false hKind rfl
  refine ⟨sign, ?_, ?_, fun depth => ?_⟩
  · rw [tokens_append]
    exact hTokens
  · exact hLeft.proper.append (proper_word hParen (by simp [hKind]) hRight.proper) rfl
  · rw [items_append, items]
    exact reads_operation hOp (hLeft.reads depth) (hRight.reads depth)

/-- A text that is parsed to what it stands for. -/
theorem parse_eq (hStands : Stands n 0 s x e) (hHeight : x.height ≤ maxNesting) :
    Expr.parse s = .ok e := by
  rw [Expr.parse, itemsOf?_eq hStands.tokens hStands.proper hHeight]
  exact (hStands.reads 0).read _

end Stands

namespace StandsAll

variable {start : Nat} {s t : List Char} {x y : Bracketed} {e : Expr} {es : List Expr}

theorem last (hStands : Stands .expr start s x e) : StandsAll start s x [e] :=
  ⟨hStands.tokens, hStands.proper, fun depth => readsAll_last (hStands.reads depth)⟩

theorem more (hFirst : Stands .expr start s x e)
    (hMore : StandsAll (start + Piece.byteLength s + Piece.byteLength [',']) t y es) :
    ∃ comma, StandsAll start (s ++ ',' :: t) (x ++ word comma y) (e :: es) := by
  obtain ⟨comma, hKind, -, hTokens⟩ := from?_around ofChar?_comma
    (fun _ _ => joins_single rfl (.inr ofChar?_comma))
    (fun _ _ => joins_single rfl (.inl ofChar?_comma)) hFirst.tokens hMore.tokens
  refine ⟨comma, ?_, ?_, fun depth => ?_⟩
  · rw [tokens_append]
    exact hTokens
  · exact hFirst.proper.append
      (proper_word (isParen_eq_false hKind rfl) (by simp [hKind]) hMore.proper) rfl
  · rw [items_append, items]
    exact readsAll_more hKind (hFirst.reads depth) (hMore.reads depth)

/-- Arguments in parentheses behind the name of a function stand for the call. -/
theorem call (f : Function)
    (hArguments : StandsAll
      (start + Piece.byteLength f.name.toList + Piece.byteLength ['(']) s x es) :
    ∃ name opening closing, Stands .atom start (f.name.toList ++ '(' :: (s ++ [')']))
      (Bracketed.call name opening closing x nil) (.call f.name es) := by
  obtain ⟨name, opening, closing, hName, hText, hOpening, hClosing, hTokens⟩ :=
    from?_call f hArguments.tokens
  refine ⟨name, opening, closing, hTokens,
    ⟨hName, hOpening, hClosing, hArguments.proper, trivial⟩, fun depth => ?_⟩
  have hReads : Reads .atom depth
      (⟨name, priorityAt depth name, some (x.items (depth + 1)).length⟩ :: x.items (depth + 1))
      (.call name.text es) :=
    reads_call hName (hArguments.reads (depth + 1))
  rw [length_items, hText] at hReads
  rw [items, items, List.append_nil]
  exact hReads

end StandsAll

/-- Accepted sources with commas between them stand for the list of their
expressions. -/
theorem exists_standsAll {bound : Nat} {sources : List (List Char)} {es : List Expr}
    (hSome : sources ≠ []) (hSources : List.Forall₂ (fun s e => Expr.parse s = .ok e) sources es)
    (hNesting : ∀ s ∈ sources, nesting 0 s ≤ bound) (start : Nat) :
    ∃ b, StandsAll start ([','].intercalate sources) b es ∧ b.height ≤ bound := by
  induction hSources generalizing start with
  | nil => exact absurd rfl hSome
  | @cons s e rest es hFirst hRest ih =>
      rw [List.forall_mem_cons] at hNesting
      obtain ⟨x, hStands, hHeight⟩ := exists_stands hFirst start
      cases hRest with
      | nil =>
          have hText : [','].intercalate [s] = s := by simp [List.intercalate]
          rw [hText]
          exact ⟨x, .last hStands, hHeight ▸ hNesting.1⟩
      | @cons s' e' rest es' hSecond hLater =>
          have hText : [','].intercalate (s :: s' :: rest) =
              s ++ ',' :: [','].intercalate (s' :: rest) := by
            simp [List.intercalate]
          obtain ⟨y, hMore, hHeight'⟩ := ih (List.cons_ne_nil s' rest) hNesting.2
            (start + Piece.byteLength s + Piece.byteLength [','])
          obtain ⟨comma, hAll⟩ := StandsAll.more hStands hMore
          rw [hText]
          refine ⟨x ++ word comma y, hAll, ?_⟩
          rw [height_append, height, hHeight]
          exact max_le hNesting.1 hHeight'

end Grammar

/-! ## Putting sources together -/

private theorem height_group (opening closing : Token) (inside : Bracketed) :
    (group opening closing inside nil).height = inside.height + 1 :=
  Nat.max_zero _

private theorem height_call (name opening closing : Token) (inside : Bracketed) :
    (call name opening closing inside nil).height = inside.height + 1 :=
  Nat.max_zero _

namespace Expr

open Grammar

/-- **Reading is compositional** over whatever is accepted and does not exhaust
the nesting of parentheses. It depends on priorities only through comparisons, so
raising all of them changes nothing, neither an expression nor a refusal. -/
theorem parse_compositional :
    (∀ s e, parse s = .ok e → nesting 0 s ≤ 18 → parse ('(' :: (s ++ [')'])) = .ok e) ∧
    (∀ (op : Operator) s t a b, parse s = .ok a → parse t = .ok b →
      nesting 0 s ≤ 18 → nesting 0 t ≤ 18 →
        parse ('(' :: (s ++ [')']) ++ op.symbol :: '(' :: (t ++ [')'])) = .ok (binary op a b)) ∧
    (∀ (f : Function) sources es, sources ≠ [] →
      List.Forall₂ (fun s e => parse s = .ok e) sources es → (∀ s ∈ sources, nesting 0 s ≤ 18) →
        parse (f.name.toList ++ '(' :: ([','].intercalate sources ++ [')'])) =
          .ok (call f.name es)) ∧
    (∀ (amount : Int) follows items,
      ofItems? follows (items.map (Item.raise amount)) = ofItems? follows items) := by
  refine ⟨?_, ?_, ?_, ?_⟩
  · intro s e hParse hNesting
    obtain ⟨x, hStands, hHeight⟩ := exists_stands hParse (0 + Piece.byteLength ['('])
    obtain ⟨opening, closing, hEnclosed⟩ := hStands.enclosed
    refine hEnclosed.parse_eq ?_
    rw [height_group, maxNesting_eq]
    omega
  · intro op s t a b hLeft hRight hNesting hNesting'
    obtain ⟨x, hx, hHeight⟩ := exists_stands hLeft (0 + Piece.byteLength ['('])
    obtain ⟨y, hy, hHeight'⟩ := exists_stands hRight
      (0 + Piece.byteLength ('(' :: (s ++ [')'])) + Piece.byteLength [op.symbol]
        + Piece.byteLength ['('])
    obtain ⟨_, _, hx⟩ := hx.enclosed
    obtain ⟨_, _, hy⟩ := hy.enclosed
    have hFloor : ∀ side, (Symbol.operand op side).floor ≤ Symbol.atom.floor := by
      intro side
      cases op <;> cases side <;> decide
    obtain ⟨sign, hOperation⟩ := (hx.weaken (hFloor .left)).operation (hy.weaken (hFloor .right))
      (edged_enclosed s) (edged_enclosed t)
    refine hOperation.parse_eq ?_
    rw [height_append, height_group, height, height_group, maxNesting_eq]
    omega
  · intro f sources es hSome hSources hNesting
    obtain ⟨x, hArguments, hHeight⟩ := exists_standsAll hSome hSources hNesting
      (0 + Piece.byteLength f.name.toList + Piece.byteLength ['('])
    obtain ⟨_, _, _, hCall⟩ := hArguments.call f
    refine hCall.parse_eq ?_
    rw [height_call, maxNesting_eq]
    omega
  · exact ofItems?_raise

/-- Parentheses that hold no expression are accepted in `(x+)y`, and then they are
also inside of a power and of a call. -/
theorem parse_compositional_misplaced :
    let source := "(x+)y".toList
    let sum := binary .add (var "x") (var "y")
    parse source = .ok sum ∧ nesting 0 source ≤ 18 ∧
      parse "((x+)y)".toList = .ok sum ∧
      parse "((x+)y)^((x+)y)".toList = .ok (binary .pow sum sum) ∧
      parse "log((x+)y,(x+)y)".toList = .ok (call "log" [sum, sum]) := by
  intro source sum
  have hParse : parse source = .ok sum := by
    let x : Item := ⟨⟨.name, ['x'], ⟨1, 2⟩⟩, 1050, none⟩
    let plus : Item := ⟨⟨.operator, ['+'], ⟨2, 3⟩⟩, 51, none⟩
    let y : Item := ⟨⟨.name, ['y'], ⟨4, 5⟩⟩, 1000, none⟩
    have hItems : itemsOf? source = .ok ([x] ++ plus :: [y]) := by decide
    have hSum : ∀ follows, ofItems? follows ([x] ++ plus :: [y]) = _ :=
      ofItems?_append (by simp) rfl rfl rfl (by decide) (by decide) (by decide)
    rw [parse, hItems]
    show ofItems? _ _ = _
    rw [hSum, ofItems?_operand _ (by decide), ofItems?_operand _ (by decide)]
    rfl
  have hNesting : nesting 0 source ≤ 18 := by decide
  obtain ⟨hEnclosed, hOperation, hCall, -⟩ := parse_compositional
  refine ⟨hParse, hNesting, hEnclosed source sum hParse hNesting,
    hOperation .pow source source sum sum hParse hParse hNesting hNesting, ?_⟩
  refine hCall .log [source, source] [sum, sum] (by simp) (.cons hParse (.cons hParse .nil)) ?_
  intro s hs
  obtain rfl : s = source := by simpa using hs
  exact hNesting

end Expr

end Fluxion
