import Fluxion.Proofs.Placement
import Fluxion.Proofs.Readability
import Fluxion.Proofs.Skeleton
import Fluxion.Proofs.Tiling

/-!
# Which sources are expressions

A source can be refused for a character, for its parentheses, for a comma on
some level or for what is left when it is taken apart, and where it is taken
apart depends on priorities. What a source needs in order to be read can be
said without any of this: its characters, how its parentheses match, which pair
is around each comma, and its skeleton.

## Main results

* `Grammar.alternates_items_iff` — items alternate exactly where the sequence
  leads from operand to operator and has its commas in calls.
* `Expr.exists_parse_iff` — the sources that are read.
-/

namespace Fluxion

open Token Item

/-! ## Operands and operators of one token -/

namespace Token

section

variable {t : Token} (hSpelled : t.Spelled)
include hSpelled

/-- The tokens that are operands by themselves. -/
theorem exists_ofToken?_iff : (∃ e, Expr.ofToken? t = .ok e) ↔ t.IsOperand := by
  constructor
  · intro hValue
    rcases Grammar.kind_of_ofToken? hValue hSpelled with ⟨hKind, hSpells⟩ | hKind
    · exact .inl ⟨hKind, (Number.exists_spells_iff (hKind ▸ hSpelled.ofKind)).1 hSpells⟩
    · exact .inr hKind
  · rintro (⟨hKind, hNumeral⟩ | hKind)
    · have hNumber : ∀ c ∈ t.lexeme, Kind.ofChar? c = some .number := hKind ▸ hSpelled.ofKind
      obtain ⟨d, hSpells⟩ := (Number.exists_spells_iff hNumber).2 hNumeral
      have hLiteral := Number.literal?_eq hNumber
      rw [Number.numeral?_eq_some_iff.2 hSpells] at hLiteral
      simp only [Expr.ofToken?, hKind, hLiteral, Option.map_some]
      exact ⟨_, rfl⟩
    · simp only [Expr.ofToken?, hKind]
      cases constant? t.text with
      | none => exact ⟨_, rfl⟩
      | some value => exact ⟨_, rfl⟩

/-- The operators are the runs of one operator character. -/
theorem isSome_operator?_iff : t.operator?.isSome ↔ t.IsSign := by
  constructor
  · intro hOp
    obtain ⟨op, hOp⟩ := Option.isSome_iff_exists.1 hOp
    exact ⟨kind_of_operator? hOp, by rw [lexeme_of_operator? hOp, List.length_singleton]⟩
  · rintro ⟨hKind, hLength⟩
    obtain ⟨c, hLexeme⟩ := List.length_eq_one_iff.1 hLength
    have hClass := hSpelled.ofKind c (by simp [hLexeme])
    rw [hKind] at hClass
    obtain ⟨op, rfl⟩ : ∃ op : Operator, c = op.symbol := Kind.of_ofChar? hClass
    rw [operator?, if_pos hKind, hLexeme, Operator.ofText?, Operator.ofChar?_symbol]
    rfl

end

end Token

/-! ## Alternation, item by item -/

namespace Item.Alternates

variable {separator : Option Int} {p q : Phase}

theorem plain_iff {item : Item} {rest : List Item} (hReach : item.reach = none) :
    Alternates separator p (item :: rest) q ↔
      (p = .operand ∧ (∃ e, Expr.ofToken? item.token = .ok e) ∧
          Alternates separator .operator rest q) ∨
        (p = .operator ∧ (item.token.operator?.isSome ∨
            (separator = some item.priority ∧ item.token.kind = .comma)) ∧
          Alternates separator .operand rest q) := by
  refine ⟨fun hItems => hItems.of_plain hReach, ?_⟩
  rintro (⟨rfl, hValue, hRest⟩ | ⟨rfl, hOp | ⟨rfl, hKind⟩, hRest⟩)
  · exact .operand hReach hValue hRest
  · exact .operator hReach hOp hRest
  · exact .comma hReach hKind hRest

theorem call_iff {item : Item} {inside rest : List Item}
    (hReach : item.reach = some inside.length) :
    Alternates separator p (item :: (inside ++ rest)) q ↔
      p = .operand ∧ Alternates separator .operator rest q ∧
        (inside ≠ [] →
          Alternates (some (item.priority + nestingStep)) .operand inside .operator) := by
  refine ⟨fun hItems => hItems.of_call hReach, ?_⟩
  rintro ⟨rfl, hRest, hInside⟩
  exact .call hReach hInside hRest

theorem append_iff {front back : List Item} (hClosed : Closed front) :
    Alternates separator p (front ++ back) q ↔
      ∃ r, Alternates separator p front r ∧ Alternates separator r back q := by
  refine ⟨fun hItems => hItems.split rfl hClosed, ?_⟩
  rintro ⟨r, hFront, hBack⟩
  exact hFront.append hBack

end Item.Alternates

namespace Grammar

open Bracketed

/-! ## The items of a sequence -/

private theorem ranked_item {t : Token} {depth : Nat} {reach : Option Nat}
    (hDepth : depth ≤ maxNesting) (hCalled : reach.isSome → t.kind = .name) :
    Ranked ⟨t, priorityAt depth t, reach⟩ where
  operator hOp := by
    obtain ⟨op, hOp⟩ := Option.isSome_iff_exists.1 hOp
    have hPriority := op.priority_bounds
    rw [maxNesting_eq] at hDepth
    show priorityAt depth t < operandPriority
    rw [priorityAt_of_operator? hOp, operandPriority, nestingStep]
    omega
  operand hNone := by
    show operandPriority ≤ priorityAt depth t
    rw [priorityAt_of_none hNone, operandPriority, nestingStep]
    omega
  called := hCalled

/-- The items of a sequence that is not too high are ranked. -/
theorem ranked_items {b : Bracketed} (hProper : b.Proper) {depth : Nat}
    (hHeight : depth + b.height ≤ maxNesting) : ∀ item ∈ b.items depth, item.Ranked := by
  induction b generalizing depth with
  | nil => simp [items]
  | word t rest ih =>
      rw [height] at hHeight
      rw [items, List.forall_mem_cons]
      exact ⟨ranked_item (by omega) (by simp), ih hProper.2.2 hHeight⟩
  | group opening closing inside rest ihInside ih =>
      obtain ⟨-, -, hInside, hRest⟩ := hProper
      rw [height] at hHeight
      rw [items, List.forall_mem_append]
      exact ⟨ihInside hInside (by omega), ih hRest (by omega)⟩
  | call name opening closing inside rest ihInside ih =>
      obtain ⟨hName, -, -, hInside, hRest⟩ := hProper
      obtain ⟨-, hKind, -⟩ := exists_function hName
      rw [height] at hHeight
      rw [items, List.forall_mem_cons, List.forall_mem_append]
      exact ⟨ranked_item (by omega) fun _ => hKind, ihInside hInside (by omega),
        ih hRest (by omega)⟩

/-- The items alternate exactly where the sequence leads from phase to phase
and its commas stand in calls. The separator may be that of the depth, or of a
lower one, at which the sequence has no commas. -/
private def Tracks (depth : Nat) (b : Bracketed) : Prop :=
  ∀ {separator : Option Int} {p q : Phase},
    (∀ x ∈ separator, x ≤ operandPriority + nestingStep * depth) →
    (Alternates separator p (b.items depth) q ↔
      b.Leads p q ∧ b.CommasIn (separator = some (operandPriority + nestingStep * depth : Int)))

private theorem tracks_nil (depth : Nat) : Tracks depth nil := by
  intro separator p q _
  constructor
  · intro hItems
    cases hItems
    exact ⟨rfl, trivial⟩
  · rintro ⟨rfl, -⟩
    exact .nil

section

variable {depth : Nat} {rest : Bracketed} (hRest : Tracks depth rest)
include hRest

private theorem tracks_word {t : Token} (hToken : t.Spelled) : Tracks depth (word t rest) := by
  intro separator p q hBounded
  rw [items, Alternates.plain_iff rfl, hRest hBounded, hRest hBounded,
    exists_ofToken?_iff hToken, isSome_operator?_iff hToken, Leads, CommasIn]
  constructor
  · rintro (⟨rfl, hOperand, hLeads, hCommas⟩ | ⟨rfl, hOp, hLeads, hCommas⟩)
    · refine ⟨.inl ⟨rfl, hOperand, hLeads⟩, fun hComma => ?_, hCommas⟩
      exact absurd hComma hOperand.kind_ne_comma
    · rcases hOp with hSign | ⟨hSeparator, hComma⟩
      · refine ⟨.inr ⟨rfl, .inl hSign, hLeads⟩, fun hComma => ?_, hCommas⟩
        exact absurd hComma hSign.kind_ne_comma
      · have hLevel : separator = some (operandPriority + nestingStep * depth : Int) :=
          hSeparator.trans (congrArg some (priorityAt_comma hComma depth))
        exact ⟨.inr ⟨rfl, .inr hComma, hLeads⟩, fun _ => hLevel, hCommas⟩
  · rintro ⟨⟨rfl, hOperand, hLeads⟩ | ⟨rfl, hOp, hLeads⟩, hComma, hCommas⟩
    · exact .inl ⟨rfl, hOperand, hLeads, hCommas⟩
    · refine .inr ⟨rfl, hOp.imp_right fun hKind => ?_, hLeads, hCommas⟩
      rw [priorityAt_comma hKind]
      exact ⟨hComma hKind, hKind⟩

variable {opening closing : Token} {inside : Bracketed} (hInside : Tracks (depth + 1) inside)
include hInside

/-- A separator around a group is too weak to stand inside it. -/
private theorem tracks_group (hProper : inside.Proper) :
    Tracks depth (group opening closing inside rest) := by
  intro separator p q hBounded
  have hDeeper : ∀ x ∈ separator, x < operandPriority + nestingStep * (depth + 1 : Nat) :=
    fun x hx => lt_operandPriority_succ (hBounded x hx)
  have hNever : separator ≠ some (operandPriority + nestingStep * (depth + 1 : Nat) : Int) :=
    fun hSeparator => Int.lt_irrefl _ (hDeeper _ hSeparator)
  have hWithin : inside.CommasIn
        (separator = some (operandPriority + nestingStep * (depth + 1 : Nat) : Int)) ↔
      inside.CommasIn False :=
    ⟨fun hCommas => hCommas.mono hNever, fun hCommas => hCommas.mono False.elim⟩
  rw [items, Alternates.append_iff (nested_items hProper (depth + 1)).closed, Leads, CommasIn]
  simp only [hInside fun x hx => Int.le_of_lt (hDeeper x hx), hRest hBounded, hWithin]
  constructor
  · rintro ⟨r, ⟨hFront, hCommasInside⟩, hBack, hCommas⟩
    exact ⟨⟨r, hFront, hBack⟩, hCommasInside, hCommas⟩
  · rintro ⟨⟨r, hFront, hBack⟩, hCommasInside, hCommas⟩
    exact ⟨r, ⟨hFront, hCommasInside⟩, hBack, hCommas⟩

/-- The separator of a call is that of the depth inside it. -/
private theorem tracks_call {name : Token} (hName : name.namesFunction) :
    Tracks depth (call name opening closing inside rest) := by
  intro separator p q hBounded
  have hOwn := priorityAt_add_nestingStep hName depth
  have hArguments : Alternates (some (priorityAt depth name + nestingStep)) .operand
        (inside.items (depth + 1)) .operator ↔
      inside.Leads .operand .operator ∧ inside.CommasIn True := by
    rw [hInside (by simp [hOwn]), hOwn]
    simp
  have hNil : inside.items (depth + 1) ≠ [] ↔ inside.size ≠ 0 := by
    rw [← length_items (depth + 1) inside, ne_eq, ne_eq, List.length_eq_zero_iff]
  rw [items, Alternates.call_iff (by rw [length_items]), hRest hBounded, hArguments, hNil, Leads,
    CommasIn]
  constructor
  · rintro ⟨rfl, ⟨hLeads, hCommas⟩, hHeld⟩
    by_cases hSize : inside.size = 0
    · exact ⟨⟨rfl, .inl hSize, hLeads⟩, commasIn_of_size_eq_zero hSize True, hCommas⟩
    · obtain ⟨hLeadsInside, hCommasInside⟩ := hHeld hSize
      exact ⟨⟨rfl, .inr hLeadsInside, hLeads⟩, hCommasInside, hCommas⟩
  · rintro ⟨⟨rfl, hHeld, hLeads⟩, hCommasInside, hCommas⟩
    exact ⟨rfl, ⟨hLeads, hCommas⟩, fun hSize => ⟨hHeld.resolve_left hSize, hCommasInside⟩⟩

end

private theorem tracks {b : Bracketed} (hProper : b.Proper) (hSpelled : ∀ t ∈ b.tokens, t.Spelled)
    (depth : Nat) : Tracks depth b := by
  induction b generalizing depth with
  | nil => exact tracks_nil depth
  | word t rest ih =>
      obtain ⟨-, -, hRest⟩ := hProper
      simp only [tokens, List.forall_mem_cons] at hSpelled
      exact tracks_word (ih hRest hSpelled.2 depth) hSpelled.1
  | group opening closing inside rest ihInside ih =>
      obtain ⟨-, -, hInside, hRest⟩ := hProper
      simp only [tokens, List.mem_cons, List.mem_append, or_imp, forall_and, forall_eq] at hSpelled
      obtain ⟨-, hSpelledInside, -, hSpelledRest⟩ := hSpelled
      exact tracks_group (ih hRest hSpelledRest depth)
        (ihInside hInside hSpelledInside (depth + 1)) hInside
  | call name opening closing inside rest ihInside ih =>
      obtain ⟨hName, -, -, hInside, hRest⟩ := hProper
      simp only [tokens, List.mem_cons, List.mem_append, or_imp, forall_and, forall_eq] at hSpelled
      obtain ⟨-, -, hSpelledInside, -, hSpelledRest⟩ := hSpelled
      exact tracks_call (ih hRest hSpelledRest depth)
        (ihInside hInside hSpelledInside (depth + 1)) hName

/-- **The items of a sequence alternate exactly where it leads from operand to
operator** and has its commas in calls. -/
theorem alternates_items_iff {b : Bracketed} (hProper : b.Proper)
    (hSpelled : ∀ t ∈ b.tokens, t.Spelled) :
    Alternates none .operand (b.items 0) .operator ↔
      b.Leads .operand .operator ∧ b.CommasIn False := by
  rw [tracks hProper hSpelled 0 (by simp)]
  simp

end Grammar

/-! ## Sources that are read -/

/-- What a sequence of tokens with its parentheses matched needs in order to be
an expression. -/
structure Bracketed.Acceptable (b : Bracketed) : Prop where
  /-- The pairs that directly follow the name of a function are those of
  calls. -/
  proper : b.Proper
  /-- No more than nineteen pairs lie inside each other. -/
  shallow : b.height ≤ 19
  /-- The innermost pair around every comma is that of a call. -/
  commas : b.CommasIn False
  /-- Without grouping parentheses it is a chain of operands and operators. -/
  skeleton : Skeleton .chain b.ungroup.tokens

namespace Expr

/-- A bracketed source that is not too high is read if and only if its commas
stand in calls and its skeleton is a chain. -/
private theorem exists_parse_iff_of_tokens {source : List Char} {b : Bracketed}
    (hTokens : Token.ofSource? source = .ok b.tokens) (hProper : b.Proper)
    (hHeight : b.height ≤ maxNesting) :
    (∃ e, parse source = .ok e) ↔ b.CommasIn False ∧ Skeleton .chain b.ungroup.tokens := by
  have hItems : itemsOf? source = .ok (b.items 0) := Bracketed.itemsOf?_eq hTokens hProper hHeight
  have hParse : parse source = ofItems? (endOf source) (b.items 0) := by
    rw [parse, hItems]
    rfl
  have hRanked : ∀ item ∈ b.items 0, item.Ranked := Grammar.ranked_items hProper (by omega)
  rw [hParse, exists_ofItems?_iff (Grammar.nested_items hProper 0) hRanked,
    Grammar.alternates_items_iff hProper (spelled_of_mem hTokens)]
  constructor
  · rintro ⟨hLeads, hCommas⟩
    exact ⟨hCommas, (Bracketed.skeleton_iff_leads hProper hCommas).2 hLeads⟩
  · rintro ⟨hCommas, hSkeleton⟩
    exact ⟨(Bracketed.skeleton_iff_leads hProper hCommas).1 hSkeleton, hCommas⟩

/-- **The sources that are read** are those of characters of the alphabet, with
matching parentheses not too deep inside each other, with commas directly
inside of calls only, and with a skeleton that is a chain. -/
theorem exists_parse_iff {source : List Char} :
    (∃ e, parse source = .ok e) ↔
      (∀ c ∈ source, InAlphabet c) ∧
        ∃ b : Bracketed, Token.ofSource? source = .ok b.tokens ∧ b.Acceptable := by
  constructor
  · intro hRead
    obtain ⟨e, hParse⟩ := hRead
    obtain ⟨items, hItems, -⟩ := bind_eq_ok_iff.1 hParse
    obtain ⟨b, hProper, hTokens, hHeight, -⟩ := Bracketed.exists_of_itemsOf? hItems
    obtain ⟨hCommas, hSkeleton⟩ :=
      (exists_parse_iff_of_tokens hTokens hProper hHeight).1 ⟨e, hParse⟩
    rw [maxNesting_eq] at hHeight
    exact ⟨(exists_from?_iff 0 source).1 ⟨b.tokens, hTokens⟩, b, hTokens, hProper, hHeight, hCommas,
      hSkeleton⟩
  · rintro ⟨-, b, hTokens, hProper, hHeight, hCommas, hSkeleton⟩
    rw [← maxNesting_eq] at hHeight
    exact (exists_parse_iff_of_tokens hTokens hProper hHeight).2 ⟨hCommas, hSkeleton⟩

end Expr

end Fluxion
