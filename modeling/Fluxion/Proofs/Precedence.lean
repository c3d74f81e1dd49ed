import Fluxion.Proofs.Numeral
import Fluxion.Proofs.Outcome
import Fluxion.Proofs.Phrase
import Fluxion.Proofs.Splitting

/-!
# Priorities implement the precedence grammar

No grammar is consulted when a list of items is taken apart, and the
parentheses are gone by then. What makes the reading right all the same is an
invariant of the items of every phrase: on their top level nothing is weaker
than the level of the grammar they belong to, raised by the depth at which
they lie. So the operator at the root of a phrase is the weakest item of the
list, and the right one among equally weak ones.

## Main results

* `Slice` — the invariant, and `Slice.operation` — its step.
* `reads_phrase` — the items of a phrase stand for its expression.
* `Expr.parse_of_derives` — a derivable source is parsed to what its
  derivation builds.
-/

namespace Fluxion.Grammar

open Token Item Bracketed

/-! ## The invariant -/

/-- A bound below the binding strengths of a nonterminal. -/
def Symbol.floor : Symbol → Nat
  | expr => 1
  | term => 10
  | power => 20
  | atom => 21
  | arguments => 0

theorem Symbol.floor_ofOperator (op : Operator) : (ofOperator op).floor = op.priority := by
  cases op <;> rfl

theorem Symbol.priority_le_floor (op : Operator) (side : Side) :
    op.priority ≤ (operand op side).floor := by
  cases op <;> cases side <;> decide

/-- On the side to which an operator does not group, its operands bind more
strongly. -/
theorem Symbol.priority_lt_floor {op : Operator} {side : Side} (hSide : op.associativity ≠ side) :
    op.priority < (operand op side).floor := by
  revert hSide
  cases op <;> cases side <;> decide

theorem Symbol.ofOperator_ne (op : Operator) : ofOperator op ≠ .arguments := by
  cases op <;> decide

theorem Symbol.operand_ne (op : Operator) (side : Side) : operand op side ≠ .arguments := by
  cases op <;> cases side <;> decide

/-- What holds of a nonterminal holds of the weaker ones, if it goes over from
each to the next. -/
theorem Symbol.weaken {P : Symbol → Prop} (hTerm : P .term → P .expr) (hPower : P .power → P .term)
    (hAtom : P .atom → P .power) {n m : Symbol} (hFloor : m.floor ≤ n.floor) (hn : n ≠ .arguments)
    (hm : m ≠ .arguments) (hHolds : P n) : P m := by
  cases n <;> cases m <;> first
    | exact hHolds
    | exact absurd rfl hn
    | exact absurd rfl hm
    | exact hTerm hHolds
    | exact hPower hHolds
    | exact hAtom hHolds
    | exact hTerm (hPower hHolds)
    | exact hPower (hAtom hHolds)
    | exact hTerm (hPower (hAtom hHolds))
    | exact absurd hFloor (by decide)

/-- What the items of a phrase have in common, at the given depth. -/
structure Slice (n : Symbol) (depth : Nat) (items : List Item) : Prop where
  nonempty : items ≠ []
  closed : Closed items
  standing : ∀ item ∈ heads 0 items, item.checkStanding = .ok ()
  ranked : ∀ item ∈ heads 0 items, ∃ d, depth ≤ d ∧ item.priority = priorityAt d item.token
  floor : ∀ item ∈ heads 0 items, (n.floor + nestingStep * depth : Int) ≤ item.priority

namespace Slice

variable {n : Symbol} {depth : Nat} {items : List Item}

/-- A nonterminal may be replaced by a weaker one. -/
theorem weaken {m : Symbol} (hSlice : Slice n depth items) (hFloor : m.floor ≤ n.floor) :
    Slice m depth items where
  nonempty := hSlice.nonempty
  closed := hSlice.closed
  standing := hSlice.standing
  ranked := hSlice.ranked
  floor item hItem := by
    have := hSlice.floor item hItem
    omega

/-- Whatever lies one pair of parentheses deeper binds like an atom. -/
theorem deeper (hSlice : Slice .expr (depth + 1) items) : Slice .atom depth items where
  nonempty := hSlice.nonempty
  closed := hSlice.closed
  standing := hSlice.standing
  ranked item hItem := by
    obtain ⟨d, hDepth, hPriority⟩ := hSlice.ranked item hItem
    exact ⟨d, by omega, hPriority⟩
  floor item hItem := by
    have := hSlice.floor item hItem
    simp only [Symbol.floor, nestingStep] at this ⊢
    omega

/-- An operand, or a call with everything it covers. -/
theorem single {t : Token} {reach : Option Nat} {covered : List Item}
    (hKind : t.kind = .number ∨ t.kind = .name) (hReach : reach.getD 0 = covered.length) :
    Slice .atom depth (⟨t, priorityAt depth t, reach⟩ :: covered) := by
  have hOp : t.operator? = none := by
    rcases hKind with hKind | hKind <;> simp [Token.operator?, hKind]
  have hHeads : heads 0 (⟨t, priorityAt depth t, reach⟩ :: covered) =
      [⟨t, priorityAt depth t, reach⟩] := heads_of_covered hReach
  refine ⟨by simp, closed_of_covered hReach, ?_, ?_, ?_⟩
  all_goals
    intro item hItem
    rw [hHeads, List.mem_singleton] at hItem
    subst hItem
  · exact checkStanding_of_kind hKind
  · exact ⟨depth, Nat.le_refl _, rfl⟩
  · simp only [priorityAt, basePriority, hOp, Symbol.floor, operandPriority]
    omega

end Slice

/-- What is not stronger than operands at some depth is weaker than those one
pair of parentheses deeper. -/
theorem lt_operandPriority_succ {x : Int} {depth : Nat}
    (hx : x ≤ operandPriority + nestingStep * depth) :
    x < operandPriority + nestingStep * (depth + 1 : Nat) := by
  simp only [nestingStep] at hx ⊢
  omega

/-- The priority of a token that is no operator. -/
theorem priorityAt_of_none {t : Token} (hNone : t.operator? = none) (depth : Nat) :
    priorityAt depth t = operandPriority + nestingStep * depth := by
  rw [priorityAt, basePriority, hNone]

section

variable {op : Operator} {t : Token} (hOp : t.operator? = some op) {depth : Nat}
include hOp

theorem priorityAt_of_operator? (d : Nat) :
    priorityAt d t = op.priority + nestingStep * d := by
  rw [priorityAt, basePriority, hOp]

/-- The operator of an operation is weaker than everything in front of it. -/
private theorem weakerThan_front {front : List Item}
    (hFront : Slice (.operand op .left) depth front) :
    ∀ item ∈ heads 0 front, weakerThan ⟨t, priorityAt depth t, none⟩ item = true := by
  intro item hItem
  have hFloor := hFront.floor item hItem
  have hLevel := Symbol.priority_le_floor op .left
  simp only [weakerThan, priorityAt_of_operator? hOp]
  split
  · next hEqual =>
      have hSide : op.associativity = .left := by
        by_contra hSide
        have := Symbol.priority_lt_floor hSide
        omega
      simp [hOp, hSide]
  · rw [decide_eq_true_eq]
    omega

/-- Nothing behind the operator of an operation is weaker than it. -/
private theorem weakerThan_back {back : List Item}
    (hBack : Slice (.operand op .right) depth back) :
    ∀ item ∈ heads 0 back, item.weakerThan ⟨t, priorityAt depth t, none⟩ = false := by
  intro item hItem
  have hFloor := hBack.floor item hItem
  have hLevel := Symbol.priority_le_floor op .right
  simp only [weakerThan, priorityAt_of_operator? hOp]
  split
  · next hEqual =>
      -- an equally weak operator lies at the same depth and groups to the same side
      have hSide : op.associativity = .right := by
        by_contra hSide
        have := Symbol.priority_lt_floor hSide
        omega
      obtain ⟨d, hDepth, hPriority⟩ := hBack.ranked item hItem
      cases hItemOp : item.token.operator? with
      | none => rfl
      | some op' =>
          rw [priorityAt_of_operator? hItemOp] at hPriority
          have hBounds := op.priority_bounds
          have hBounds' := op'.priority_bounds
          have hSame : op'.priority = op.priority := by
            simp only [nestingStep] at hPriority hEqual
            omega
          simp [Operator.associativity_eq_of_priority_eq hSame, hSide]
  · rw [decide_eq_false_iff_not]
    omega

/-- **The step of the invariant**: two operands with their operator. -/
theorem Slice.operation {front back : List Item} (hFront : Slice (.operand op .left) depth front)
    (hBack : Slice (.operand op .right) depth back) :
    Slice (.ofOperator op) depth (front ++ ⟨t, priorityAt depth t, none⟩ :: back) := by
  have hKind := kind_of_operator? hOp
  have hHeads : heads 0 (front ++ ⟨t, priorityAt depth t, none⟩ :: back) =
      heads 0 front ++ ⟨t, priorityAt depth t, none⟩ :: heads 0 back :=
    hFront.closed.heads_append _
  have hLeft := Symbol.priority_le_floor op .left
  have hRight := Symbol.priority_le_floor op .right
  refine ⟨by simp, hFront.closed.append hBack.closed, ?_, ?_, ?_⟩
  all_goals
    intro item hItem
    rw [hHeads, List.mem_append, List.mem_cons] at hItem
    rcases hItem with hItem | rfl | hItem
  · exact hFront.standing item hItem
  · simp [checkStanding, hKind, hOp]
  · exact hBack.standing item hItem
  · exact hFront.ranked item hItem
  · exact ⟨depth, Nat.le_refl _, rfl⟩
  · exact hBack.ranked item hItem
  · have := hFront.floor item hItem
    rw [Symbol.floor_ofOperator]
    omega
  · rw [Symbol.floor_ofOperator]
    exact Int.le_of_eq (priorityAt_of_operator? hOp depth).symm
  · have := hBack.floor item hItem
    rw [Symbol.floor_ofOperator]
    omega

end

/-! ## Reading a phrase -/

/-- The items are a slice and stand for the expression. -/
structure Reads (n : Symbol) (depth : Nat) (items : List Item) (e : Expr) : Prop where
  slice : Slice n depth items
  read : ∀ follows, Expr.ofItems? follows items = .ok e

/-- Cut at the commas of their depth, the items stand for the expressions. -/
structure ReadsAll (depth : Nat) (items : List Item) (es : List Expr) : Prop where
  nonempty : items ≠ []
  cut : ∀ follows, ∃ arguments,
    Arguments.cutAt (operandPriority + nestingStep * depth) 0 follows items = ⟨arguments, none⟩ ∧
      arguments.mapM (fun a => Expr.ofItems? a.follows a.items) = .ok es

variable {depth : Nat}

theorem Reads.weaken {n m : Symbol} {items : List Item} {e : Expr} (hReads : Reads n depth items e)
    (hFloor : m.floor ≤ n.floor) : Reads m depth items e :=
  ⟨hReads.slice.weaken hFloor, hReads.read⟩

private theorem reads_number {t : Token} {d : Number.Decimal} (hKind : t.kind = .number)
    (hSpells : Spells t.lexeme d) :
    Reads .atom depth [⟨t, priorityAt depth t, none⟩]
      (.const (Number.ofPattern false d.pattern)) := by
  refine ⟨.single (.inl hKind) rfl, fun follows => ?_⟩
  have hLiteral : Number.literal? t.lexeme = some (Number.ofPattern false d.pattern) := by
    rw [Number.literal?_eq hSpells.ofKind.2, Number.numeral?_eq_some_iff.2 hSpells]
    rfl
  rw [Expr.ofItems?_operand follows (by simp)]
  simp only [Expr.ofToken?, hKind, hLiteral]

private theorem reads_name {t : Token} (hKind : t.kind = .name) :
    Reads .atom depth [⟨t, priorityAt depth t, none⟩] (named t.lexeme) := by
  refine ⟨.single (.inr hKind) rfl, fun follows => ?_⟩
  rw [Expr.ofItems?_operand follows (by simp)]
  cases hValue : constant? (String.ofList t.lexeme) with
  | none => simp [Expr.ofToken?, hKind, named_eq, Token.text, hValue]
  | some value => simp [Expr.ofToken?, hKind, named_eq, Token.text, hValue]

theorem reads_operation {op : Operator} {t : Token} {front back : List Item} {a b : Expr}
    (hOp : t.operator? = some op) (hFront : Reads (.operand op .left) depth front a)
    (hBack : Reads (.operand op .right) depth back b) :
    Reads (.ofOperator op) depth (front ++ ⟨t, priorityAt depth t, none⟩ :: back)
      (.binary op a b) := by
  have hSlice := hFront.slice.operation hOp hBack.slice
  refine ⟨hSlice, fun follows => ?_⟩
  rw [Expr.ofItems?_append hFront.slice.nonempty hFront.slice.closed rfl hOp hSlice.standing
    (weakerThan_front hOp hFront.slice) (weakerThan_back hOp hBack.slice), hFront.read]
  show Expr.ofItems? _ back >>= _ = _
  rw [hBack.read]
  rfl

section

variable {name : Token} (hName : name.namesFunction)
include hName

theorem priorityAt_of_namesFunction (d : Nat) :
    priorityAt d name = operandPriority + nestingStep * d := by
  obtain ⟨-, hKind, -⟩ := exists_function hName
  exact priorityAt_of_none (by simp [Token.operator?, hKind]) d

/-- The commas of a call are as strong as operands one pair of parentheses
deeper. -/
theorem priorityAt_add_nestingStep (d : Nat) :
    priorityAt d name + nestingStep = operandPriority + nestingStep * (d + 1 : Nat) := by
  rw [priorityAt_of_namesFunction hName, Int.natCast_succ, Int.mul_add, Int.mul_one, Int.add_assoc]

private theorem reads_emptyCall :
    Reads .atom depth [⟨name, priorityAt depth name, some 0⟩] (.call name.text []) := by
  obtain ⟨-, hKind, -⟩ := exists_function hName
  refine ⟨.single (.inr hKind) rfl, fun follows => ?_⟩
  rw [Expr.ofItems?_call follows rfl]
  rfl

theorem reads_call {items : List Item} {es : List Expr}
    (hArguments : ReadsAll (depth + 1) items es) :
    Reads .atom depth (⟨name, priorityAt depth name, some items.length⟩ :: items)
      (.call name.text es) := by
  obtain ⟨-, hKind, -⟩ := exists_function hName
  refine ⟨.single (.inr hKind) rfl, fun follows => ?_⟩
  obtain ⟨arguments, hCut, hRead⟩ := hArguments.cut name.span
  have hSeparator := priorityAt_add_nestingStep hName depth
  have hArgumentsOf : argumentsOf ⟨name, priorityAt depth name, some items.length⟩ items =
      ⟨arguments, none⟩ := by
    rw [argumentsOf, if_neg (by simpa using hArguments.nonempty), hSeparator, hCut]
  rw [Expr.ofItems?_call follows rfl, hArgumentsOf, hRead]
  rfl

end

private theorem kind_ne_comma {n : Symbol} {items : List Item} (hSlice : Slice n depth items) :
    ∀ item ∈ heads 0 items, item.token.kind ≠ .comma := by
  intro item hItem hKind
  have hStanding := hSlice.standing item hItem
  simp [checkStanding, hKind] at hStanding

theorem readsAll_last {items : List Item} {e : Expr} (hReads : Reads .expr depth items e) :
    ReadsAll depth items [e] := by
  refine ⟨hReads.slice.nonempty, fun follows => ⟨[⟨follows, items⟩], ?_, ?_⟩⟩
  · exact Arguments.cutAt_closed hReads.slice.closed (kind_ne_comma hReads.slice)
  · rw [mapM_eq_ok_iff]
    exact .cons (hReads.read follows) .nil

theorem priorityAt_comma {t : Token} (hComma : t.kind = .comma) (depth : Nat) :
    priorityAt depth t = operandPriority + nestingStep * depth := by
  exact priorityAt_of_none (by simp [Token.operator?, hComma]) depth

theorem readsAll_more {t : Token} {front back : List Item} {e : Expr} {es : List Expr}
    (hComma : t.kind = .comma) (hFirst : Reads .expr depth front e)
    (hMore : ReadsAll depth back es) :
    ReadsAll depth (front ++ ⟨t, priorityAt depth t, none⟩ :: back) (e :: es) := by
  refine ⟨by simp, fun follows => ?_⟩
  obtain ⟨arguments, hCut, hRead⟩ := hMore.cut t.span
  have hPriority := priorityAt_comma hComma depth
  refine ⟨⟨follows, front⟩ :: arguments, ?_, ?_⟩
  · rw [Arguments.cutAt_comma hFirst.slice.closed (kind_ne_comma hFirst.slice) hComma hPriority rfl,
      hCut]
    rfl
  · rw [mapM_eq_ok_iff] at hRead ⊢
    exact .cons (hFirst.read follows) hRead

private theorem reads_one {n : Symbol} {items : List Item} {e : Expr} (hn : n ≠ .arguments)
    (hReads : Reads n depth items e) :
    (n = .arguments → ReadsAll depth items [e]) ∧
      (n ≠ .arguments → ∃ e', [e] = [e'] ∧ Reads n depth items e') :=
  ⟨fun hArguments => absurd hArguments hn, fun _ => ⟨e, rfl, hReads⟩⟩

private theorem reads_of_one {n : Symbol} {items : List Item} {e : Expr}
    (hOne : ∃ e', [e] = [e'] ∧ Reads n depth items e') : Reads n depth items e := by
  obtain ⟨e', hEq, hReads⟩ := hOne
  cases hEq
  exact hReads

/-- **The items of a phrase stand for its expressions**, at every depth. -/
theorem reads_phrase {n : Symbol} {b : Bracketed} {es : List Expr} (hPhrase : Phrase n b es)
    (depth : Nat) :
    (n = .arguments → ReadsAll depth (b.items depth) es) ∧
      (n ≠ .arguments → ∃ e, es = [e] ∧ Reads n depth (b.items depth) e) := by
  induction hPhrase generalizing depth with
  | number hKind hSpells =>
      exact reads_one (by decide) (reads_number hKind hSpells)
  | name hKind =>
      exact reads_one (by decide) (reads_name hKind)
  | @group opening closing inside e _ ih =>
      have hReads := reads_of_one ((ih (depth + 1)).2 (by decide))
      have hItems : (Bracketed.group opening closing inside nil).items depth =
          inside.items (depth + 1) := by
        rw [items, items, List.append_nil]
      rw [hItems]
      exact reads_one (by decide) ⟨hReads.slice.deeper, hReads.read⟩
  | emptyCall hName =>
      exact reads_one (by decide) (reads_emptyCall hName)
  | @call name opening closing inside es hName _ ih =>
      have hItems : (Bracketed.call name opening closing inside nil).items depth =
          ⟨name, priorityAt depth name, some (inside.items (depth + 1)).length⟩
            :: inside.items (depth + 1) := by
        rw [items, items, List.append_nil, length_items]
      rw [hItems]
      exact reads_one (by decide) (reads_call hName ((ih (depth + 1)).1 rfl))
  | @operation op t x y a b hOp _ _ ihLeft ihRight =>
      have hFront := reads_of_one ((ihLeft depth).2 (Symbol.operand_ne op .left))
      have hBack := reads_of_one ((ihRight depth).2 (Symbol.operand_ne op .right))
      rw [items_append]
      exact reads_one (Symbol.ofOperator_ne op) (reads_operation hOp hFront hBack)
  | term _ ih =>
      have hReads := reads_of_one ((ih depth).2 (by decide))
      exact reads_one (by decide) (hReads.weaken (by decide))
  | power _ ih =>
      have hReads := reads_of_one ((ih depth).2 (by decide))
      exact reads_one (by decide) (hReads.weaken (by decide))
  | atom _ ih =>
      have hReads := reads_of_one ((ih depth).2 (by decide))
      exact reads_one (by decide) (hReads.weaken (by decide))
  | lastArgument _ ih =>
      have hReads := reads_of_one ((ih depth).2 (by decide))
      exact ⟨fun _ => readsAll_last hReads, fun h => absurd rfl h⟩
  | moreArguments hComma _ _ ihFirst ihMore =>
      have hFirst := reads_of_one ((ihFirst depth).2 (by decide))
      rw [items_append]
      exact ⟨fun _ => readsAll_more hComma hFirst ((ihMore depth).1 rfl), fun h => absurd rfl h⟩

/-- The items of a phrase that is no list stand for its expression. -/
theorem Phrase.reads {n : Symbol} {b : Bracketed} {e : Expr} (hPhrase : Phrase n b [e])
    (hn : n ≠ .arguments) (depth : Nat) : Reads n depth (b.items depth) e :=
  reads_of_one ((reads_phrase hPhrase depth).2 hn)

end Fluxion.Grammar

namespace Fluxion.Expr

open Grammar Token

section

variable {source : List Char} {b : Bracketed} (hTokens : from? 0 source = .ok b.tokens)
  (hProper : b.Proper)
include hTokens hProper

theorem parse_of_phrase {e : Expr} (hPhrase : Phrase .expr b [e])
    (hHeight : b.height ≤ maxNesting) : parse source = .ok e := by
  have hReads := hPhrase.reads (by decide) 0
  rw [parse, Bracketed.itemsOf?_eq hTokens hProper hHeight]
  exact hReads.read _

theorem parse_tooDeep (hHeight : maxNesting < b.height) :
    ∃ span, parse source = .error ⟨span, .nestingTooDeep maxNesting⟩ := by
  obtain ⟨span, hItems⟩ := Bracketed.itemsOf?_tooDeep hTokens hProper hHeight
  refine ⟨span, ?_⟩
  rw [parse, hItems]
  rfl

end

/-- **Every derivable source is parsed to what its derivation builds**, as
long as its parentheses are not too deep inside each other. -/
theorem parse_of_derives {source : List Char} {e : Expr} (hDerives : Derives .expr source [e])
    (hNesting : nesting 0 source ≤ 19) : parse source = .ok e := by
  obtain ⟨b, hTokens, hProper, hPhrase⟩ := exists_phrase hDerives 0
  rw [Bracketed.nesting_source hTokens hProper] at hNesting
  exact parse_of_phrase hTokens hProper hPhrase hNesting

theorem derives_letter {c : Char} (hLetter : c.isAlpha)
    (hOther : constant? (String.ofList [c]) = none) :
    Derives .atom [c] [var (String.ofList [c])] := by
  have hName := Derives.name (s := [c]) (by simp) (by simpa using hLetter)
  rwa [named_eq, hOther] at hName

/-- A power of a grouped difference, with a call and redundant parentheses. -/
theorem parse_of_derives_power :
    let source := "(x-log(2,(y)))^z".toList
    let two := const (Number.ofPattern false (Number.Decimal.pattern ⟨2, 0⟩))
    let e := binary .pow (binary .sub (var "x") (call "log" [two, var "y"])) (var "z")
    Derives .expr source [e] ∧ nesting 0 source ≤ 19 ∧ parse source = .ok e := by
  intro source two e
  have hDerives : Derives .expr source [e] := by
    have hX : Derives .atom ['x'] [var "x"] := derives_letter (by decide) (by decide)
    have hY : Derives .atom ['y'] [var "y"] := derives_letter (by decide) (by decide)
    have hZ : Derives .atom ['z'] [var "z"] := derives_letter (by decide) (by decide)
    have hDigit : ∀ c ∈ ['2'], c.isDigit := by
      rw [List.forall_mem_singleton]
      decide
    have hTwo : Derives .atom ['2'] [two] := .number (.whole (by simp) hDigit)
    have hGroup : Derives .atom "(y)".toList [var "y"] := .group (.term (.power (.atom hY)))
    have hLog : Derives .atom "log(2,(y))".toList [call "log" [two, var "y"]] :=
      .call .log (.moreArguments (.term (.power (.atom hTwo)))
        (.lastArgument (.term (.power (.atom hGroup)))))
    have hSub : Derives .expr "x-log(2,(y))".toList
        [binary .sub (var "x") (call "log" [two, var "y"])] :=
      .operation .sub (.term (.power (.atom hX))) (.power (.atom hLog))
    exact .term (.power (.operation .pow (.group hSub) (.atom hZ)))
  have hNesting : nesting 0 source ≤ 19 := by decide
  exact ⟨hDerives, hNesting, parse_of_derives hDerives hNesting⟩

end Fluxion.Expr
