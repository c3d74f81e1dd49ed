import Fluxion.Expr.Infix
import Fluxion.Proofs.Encoding
import Fluxion.Proofs.Precedence
import Fluxion.Proofs.Readback

/-!
# What is written reads back

The writer decides about parentheses by comparing two operators, the reader
finds the operator at the root as the weakest of a whole list. They meet in the
grammar: the text of an expression is a text of the nonterminal that its root
belongs to, and the writer puts parentheses exactly around those operands whose
nonterminal is not the one wanted on that side.

A text cannot give back everything. The language has no negative numerals and
gives two names to constants, so an expression comes back in its normal form.

## Main results

* `Grammar.exists_derives_written` — the text of an expression is derivable,
  and what it stands for is equal to the normal form.
* `Expr.parse_toString` — an expression that is written and parsed again comes
  back in normal form, unless its parentheses are too deep inside each other.
-/

namespace Fluxion.Expr

/-! ## Expressions that can be written -/

mutual

/-- Whether the language has words for all parts of an expression: its
constants are finite, its variables have names made of letters and its calls
are calls of functions, with any number of arguments. -/
def isPrintable : Expr → Bool
  | const value => value.isFinite
  | var name => !name.toList.isEmpty && name.toList.all Char.isAlpha
  | binary _ left right => left.isPrintable && right.isPrintable
  | call function arguments => (Function.ofName? function).isSome && arePrintable arguments

/-- Whether all expressions of a list are printable. -/
def arePrintable : List Expr → Bool
  | [] => true
  | e :: rest => e.isPrintable && arePrintable rest

end

mutual

/-- The expression in the words of the language: a constant below zero is a
difference, and the named constants are themselves. -/
def normal : Expr → Expr
  | const value => if value < 0 then const 0 - const (-value) else const value
  | var name =>
    match constant? name with
    | some value => const value
    | none => var name
  | binary op left right => binary op left.normal right.normal
  | call function arguments => call function (normals arguments)

/-- The normal forms of all expressions of a list. -/
def normals : List Expr → List Expr
  | [] => []
  | e :: rest => e.normal :: normals rest

end

end Fluxion.Expr

namespace Fluxion.Grammar

open Number Token Fluxion.Expr

/-! ## Operands -/

/-- The nonterminal that the text of an expression belongs to. -/
def level : Expr → Symbol
  | const _ | var _ | call _ _ => .atom
  | binary op _ _ => .ofOperator op

private theorem Derives.weaken {n m : Symbol} {s : List Char} {e : Expr}
    (hDerives : Derives n s [e]) (hFloor : m.floor ≤ n.floor) (hn : n ≠ .arguments)
    (hm : m ≠ .arguments) : Derives m s [e] :=
  Symbol.weaken (P := fun n => Derives n s [e]) .term .power .atom hFloor hn hm hDerives

theorem level_ne (e : Expr) : level e ≠ .arguments := by
  cases e with
  | const | var | call =>
      show Symbol.atom ≠ .arguments
      decide
  | binary op left right => exact Symbol.ofOperator_ne op

private theorem floor_expr_le (e : Expr) : Symbol.expr.floor ≤ (level e).floor := by
  cases e with
  | const | var | call =>
      show Symbol.expr.floor ≤ Symbol.atom.floor
      decide
  | binary op left right =>
      show 1 ≤ (Symbol.ofOperator op).floor
      rw [Symbol.floor_ofOperator]
      exact op.priority_bounds.1

private theorem floor_operand_le (op : Operator) (side : Side) :
    (Symbol.operand op side).floor ≤ Symbol.atom.floor := by
  cases op <;> cases side <;> decide

/-- **The writer and the grammar agree on operands**: without parentheses an
operation belongs to what the grammar wants there. -/
theorem floor_le_of_splitsUnder {child parent : Operator} {side : Side}
    (hWhole : splitsUnder child parent side = false) :
    (Symbol.operand parent side).floor ≤ (Symbol.ofOperator child).floor := by
  revert hWhole
  cases child <;> cases parent <;> cases side <;> decide

private theorem derives_operand {e t : Expr} (op : Operator) (side : Side)
    (hDerives : Derives (level e) e.written [t]) :
    Derives (.operand op side) (enclose (needsParens op side e) e.written) [t] := by
  have hOperand := Symbol.operand_ne op side
  cases hParens : needsParens op side e with
  | true =>
      have hGroup := Derives.group (hDerives.weaken (floor_expr_le e) (level_ne e) (by decide))
      exact hGroup.weaken (floor_operand_le op side) (by decide) hOperand
  | false =>
      have hFloor : (Symbol.operand op side).floor ≤ (level e).floor := by
        cases e with
        | const | var | call => exact floor_operand_le op side
        | binary child left right => exact floor_le_of_splitsUnder hParens
      exact hDerives.weaken hFloor (level_ne e) hOperand

/-! ## Constants and names -/

private theorem derives_magnitude {pattern : Nat} (hPattern : pattern < infinityPattern) :
    Derives .atom (plainMagnitude pattern) [const (ofPattern false pattern)] := by
  obtain ⟨d, hSpells, hRead⟩ := exists_spells_plainMagnitude hPattern
  have hNumber := Derives.number hSpells
  rwa [hRead] at hNumber

/-- The text of a constant is derivable; below zero it is a difference. The two
zeros are equal for the reader, and both are written without a sign. -/
private theorem exists_derives_constantText {value : Float} (hFinite : value.isFinite = true) :
    ∃ t, Derives .atom (constantText value) [t] ∧ (t == (const value).normal) = true := by
  obtain ⟨negative, pattern, hPattern, rfl⟩ := exists_of_isFinite hFinite
  have hMagnitude := derives_magnitude hPattern
  have hText : constantText (ofPattern negative pattern) =
      if negative && pattern != 0 then ['(', '0', '-'] ++ plainMagnitude pattern ++ [')']
      else plainMagnitude pattern := by
    rw [constantText, unsigned, view_ofPattern hPattern]
    rfl
  have hBelow : ofPattern negative pattern < 0 ↔ negative = true ∧ pattern ≠ 0 :=
    ofPattern_lt_zero_iff hPattern
  rw [hText, normal]
  by_cases hNegative : negative = true ∧ pattern ≠ 0
  · have hSign : (negative && pattern != 0) = true := by simpa using hNegative
    have hNone : 0 < infinityPattern := by decide
    have hZero : Derives .atom ['0'] [const (ofPattern false 0)] := derives_magnitude hNone
    have hDifference : Derives .expr (['0'] ++ '-' :: plainMagnitude pattern) _ :=
      .operation .sub (.term (.power (.atom hZero))) (.power (.atom hMagnitude))
    rw [if_pos hSign, if_pos (hBelow.2 hNegative), hNegative.1, neg_ofPattern hPattern]
    refine ⟨_, .group hDifference, ?_⟩
    have hLeft : (ofPattern false 0 == (0 : Float)) = true := by decide +kernel
    show ((ofPattern false 0 == (0 : Float)) &&
      (ofPattern false pattern == ofPattern false pattern)) = true
    rw [hLeft, beq_ofPattern_self hPattern, Bool.and_self]
  · have hSign : (negative && pattern != 0) = false := by simpa using hNegative
    rw [hSign, if_neg (mt hBelow.1 hNegative)]
    refine ⟨_, hMagnitude, ?_⟩
    show (ofPattern false pattern == ofPattern negative pattern) = true
    cases negative with
    | false => exact beq_ofPattern_self hPattern
    | true =>
        obtain rfl : pattern = 0 := by simpa using hNegative
        decide +kernel

private theorem beq_of_constant? {name : String} {value : Float}
    (hConstant : constant? name = some value) : (value == value) = true := by
  obtain ⟨-, rfl⟩ | ⟨-, rfl⟩ := constant?_eq_some_iff.1 hConstant
  · decide +kernel
  · decide +kernel

/-- A name stands for what the normal form makes of it. -/
private theorem named_beq (name : String) : (named name.toList == (var name).normal) = true := by
  rw [named_eq, normal, String.ofList_toList]
  cases hConstant : constant? name with
  | some value => exact beq_of_constant? hConstant
  | none =>
      show (name == name) = true
      exact beq_self_eq_true name

/-! ## Expressions -/

theorem written_call (function : String) (arguments : List Expr) :
    (call function arguments).written =
      function.toList ++ '(' :: (writtenAll arguments ++ [')']) := by
  rw [written, List.append_assoc, List.cons_append]

mutual

/-- **The text of an expression is derivable**, and what it stands for is equal
to the normal form. -/
theorem exists_derives_written : (e : Expr) → e.isPrintable = true →
    ∃ t, Derives (level e) e.written [t] ∧ (t == e.normal) = true
  | const value, hFinite => exists_derives_constantText hFinite
  | var name, hName => by
      rw [isPrintable, Bool.and_eq_true, Bool.not_eq_true', List.isEmpty_eq_false_iff,
        List.all_eq_true] at hName
      exact ⟨_, .name hName.1 hName.2, named_beq name⟩
  | binary op left right, hOperands => by
      rw [isPrintable, Bool.and_eq_true] at hOperands
      obtain ⟨a, hLeft, hLeftEq⟩ := exists_derives_written left hOperands.1
      obtain ⟨b, hRight, hRightEq⟩ := exists_derives_written right hOperands.2
      refine ⟨binary op a b, .operation op (derives_operand op .left hLeft)
        (derives_operand op .right hRight), ?_⟩
      show (op == op && a.beq left.normal && b.beq right.normal) = true
      rw [beq_self_eq_true op, show a.beq left.normal = true from hLeftEq,
        show b.beq right.normal = true from hRightEq]
      rfl
  | call function arguments, hCall => by
      rw [isPrintable, Bool.and_eq_true, Option.isSome_iff_exists] at hCall
      obtain ⟨⟨f, hf⟩, hArguments⟩ := hCall
      obtain rfl := Function.name_of_ofName? hf
      rw [written_call]
      by_cases hNone : arguments = []
      · subst hNone
        refine ⟨call f.name [], .emptyCall f, ?_⟩
        show (f.name == f.name && beqAll [] []) = true
        rw [beq_self_eq_true f.name]
        rfl
      · obtain ⟨ts, hDerives, hEq⟩ := exists_derives_writtenAll arguments hArguments hNone
        refine ⟨call f.name ts, .call f hDerives, ?_⟩
        show (f.name == f.name && beqAll ts (normals arguments)) = true
        rw [beq_self_eq_true f.name, hEq]
        rfl

theorem exists_derives_writtenAll : (es : List Expr) → arePrintable es = true → es ≠ [] →
    ∃ ts, Derives .arguments (writtenAll es) ts ∧ beqAll ts (normals es) = true
  | [], _, hSome => absurd rfl hSome
  | [e], hPrintable, _ => by
      rw [arePrintable, Bool.and_eq_true] at hPrintable
      obtain ⟨t, hDerives, hEq⟩ := exists_derives_written e hPrintable.1
      have hLast := hDerives.weaken (floor_expr_le e) (level_ne e) (by decide)
      refine ⟨[t], .lastArgument hLast, ?_⟩
      show (t.beq e.normal && true) = true
      rw [Bool.and_true]
      exact hEq
  | e :: next :: rest, hPrintable, _ => by
      rw [arePrintable, Bool.and_eq_true] at hPrintable
      obtain ⟨t, hDerives, hEq⟩ := exists_derives_written e hPrintable.1
      obtain ⟨ts, hMore, hMoreEq⟩ :=
        exists_derives_writtenAll (next :: rest) hPrintable.2 (List.cons_ne_nil _ _)
      have hFirst := hDerives.weaken (floor_expr_le e) (level_ne e) (by decide)
      refine ⟨t :: ts, .moreArguments hFirst hMore, ?_⟩
      show (t.beq e.normal && beqAll ts (normals (next :: rest))) = true
      rw [hMoreEq, Bool.and_true]
      exact hEq

end

/-- The tokens of the text are a phrase for what it stands for. -/
theorem exists_phrase_written {e : Expr} (hPrintable : e.isPrintable = true) :
    ∃ b t, from? 0 e.written = .ok b.tokens ∧ b.Proper ∧ Phrase .expr b [t] ∧
      (t == e.normal) = true := by
  obtain ⟨t, hLevel, hEq⟩ := exists_derives_written e hPrintable
  have hDerives := hLevel.weaken (m := .expr) (floor_expr_le e) (level_ne e) (by decide)
  obtain ⟨b, hTokens, hProper, hPhrase⟩ := exists_phrase hDerives 0
  exact ⟨b, t, hTokens, hProper, hPhrase, hEq⟩

end Fluxion.Grammar

namespace Fluxion.Expr

open Grammar Token

/-- **What is written reads back**, in normal form, unless its parentheses are
too deep inside each other. -/
theorem parse_toString {e : Expr} (hPrintable : e.isPrintable = true) :
    (nesting 0 (toString e).toList ≤ 19 →
      ∃ t, parse (toString e).toList = .ok t ∧ (t == e.normal) = true) ∧
    (19 < nesting 0 (toString e).toList →
      ∃ span, parse (toString e).toList = .error ⟨span, .nestingTooDeep 19⟩) := by
  have hText : (toString e).toList = e.written := String.toList_ofList
  obtain ⟨t, hLevel, hEq⟩ := exists_derives_written e hPrintable
  have hDerives := hLevel.weaken (m := .expr) (floor_expr_le e) (level_ne e) (by decide)
  obtain ⟨b, hTokens, hProper, hPhrase⟩ := exists_phrase hDerives 0
  rw [hText, Bracketed.nesting_source hTokens hProper]
  constructor
  · intro hNesting
    exact ⟨t, parse_of_phrase hTokens hProper hPhrase hNesting, hEq⟩
  · intro hNesting
    exact parse_tooDeep hTokens hProper hNesting

/-- `((0-2)-(e+log()))^x` reads back, and twenty-one differences inside each
other on the right are too deep. -/
theorem parse_toString_difference :
    let e := binary .pow (binary .sub (const (Number.ofPattern true 0x4000000000000000))
      (binary .add (var "e") (call "log" []))) (var "x")
    let deep := Nat.repeat (binary .sub (var "a")) 21 (var "x")
    (e.isPrintable = true ∧ toString e = "((0-2)-(e+log()))^x" ∧
      nesting 0 (toString e).toList ≤ 19 ∧
      ∃ t, parse (toString e).toList = .ok t ∧ (t == e.normal) = true) ∧
    (deep.isPrintable = true ∧ 19 < nesting 0 (toString deep).toList ∧
      ∃ span, parse (toString deep).toList = .error ⟨span, .nestingTooDeep 19⟩) := by
  intro e deep
  have hPrintable : e.isPrintable = true := by decide +kernel
  have hText : toString e = "((0-2)-(e+log()))^x" := by decide +kernel
  have hNesting : nesting 0 (toString e).toList ≤ 19 := by decide +kernel
  have hDeepPrintable : deep.isPrintable = true := by decide +kernel
  have hDeepNesting : 19 < nesting 0 (toString deep).toList := by decide +kernel
  exact ⟨⟨hPrintable, hText, hNesting, (parse_toString hPrintable).1 hNesting⟩,
    hDeepPrintable, hDeepNesting, (parse_toString hDeepPrintable).2 hDeepNesting⟩

end Fluxion.Expr
