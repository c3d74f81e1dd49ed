import Fluxion.Proofs.Climbing
import Fluxion.Proofs.Depth
import Fluxion.Proofs.Reprinting

/-!
# The text of an expression has the fewest parentheses

The writer puts an operand into parentheses exactly where its operator would
otherwise be split under the one it stands under. Whoever wrote the operand
differently, with parentheses in places the grammar does not know, must still
have got from the depth of the upper operator to a greater one, or the items
would have been taken apart at the lower one. So along the items of any source
there is a climb for every pair that the writer needs, and no climb pays for two
of them: an operation uses up what is climbed from the level at which its items
start to the depth of its operator, and hands its operands what lies behind.

## Main results

* `Expr.count_written` — the opening parentheses of the text of an expression.
* `Expr.paysFor_of_ofItems?` — what is climbed along items pays for the parentheses
  of what is read.
* `Expr.toString_fewest_parens` — no source of an expression has fewer
  parentheses than its text, and no derivable one nests them less deeply.
-/

namespace Fluxion

open Token Item

namespace Expr

open Grammar

/-! ## The parentheses of a text -/

mutual

/-- The number of opening parentheses in the text of an expression without
constants below zero. -/
def parens : Expr → Nat
  | const _ | var _ => 0
  | binary op left right =>
    left.parens + (needsParens op .left left).toNat +
      (right.parens + (needsParens op .right right).toNat)
  | call _ arguments => parensAll arguments + 1

/-- The number of opening parentheses in the texts of a list of expressions. -/
def parensAll : List Expr → Nat
  | [] => 0
  | e :: rest => e.parens + parensAll rest

end

private theorem count_enclose (wanted : Bool) (s : List Char) :
    (enclose wanted s).count '(' = s.count '(' + wanted.toNat := by
  cases wanted with
  | false => rfl
  | true => simp [enclose]

mutual

theorem count_written {e : Expr} (hReadable : e.Every Node.Readable) :
    e.written.count '(' = e.parens := by
  match e with
  | const value =>
      obtain ⟨pattern, hPattern, rfl⟩ := (every_const value).1 hReadable
      exact List.count_eq_zero.2 fun hMem => (noParen_constantText hPattern _ hMem).1 rfl
  | var name =>
      obtain ⟨-, hLetters, -⟩ := (every_var name).1 hReadable
      exact List.count_eq_zero.2 fun hMem => (noParen_of_isAlpha (hLetters _ hMem)).1 rfl
  | binary op left right =>
      obtain ⟨-, hLeft, hRight⟩ := (every_binary op left right).1 hReadable
      have hSymbol : op.symbol ≠ '(' :=
        (Kind.noParen_of_ofChar? (Kind.ofChar?_symbol op) rfl).1
      rw [written, List.count_append, List.count_cons_of_ne hSymbol, count_enclose, count_enclose,
        count_written hLeft, count_written hRight, parens]
  | call function arguments =>
      obtain ⟨hFunction, hArguments⟩ := (every_call function arguments).1 hReadable
      obtain ⟨f, hf⟩ := Option.isSome_iff_exists.1 hFunction
      obtain rfl := Function.name_of_ofName? hf
      have hName : f.name.toList.count '(' = 0 := List.count_eq_zero.2 fun hMem =>
        (noParen_of_isAlpha (isAlpha_of_mem_name f _ hMem)).1 rfl
      rw [written_call, parens, ← count_writtenAll hArguments]
      simp [hName]

theorem count_writtenAll {es : List Expr} (hReadable : ∀ e ∈ es, e.Every Node.Readable) :
    (writtenAll es).count '(' = parensAll es := by
  match es with
  | [] => rfl
  | [e] => exact count_written (hReadable e (by simp))
  | e :: next :: rest =>
      obtain ⟨hFirst, hMore⟩ := List.forall_mem_cons.1 hReadable
      rw [writtenAll, List.count_append, List.count_cons_of_ne (by decide), count_written hFirst,
        count_writtenAll hMore, ← parensAll]
      simp

end

end Expr

/-! ## Depths of operators and operands -/

namespace Item

open Grammar

theorem LiesAt.unique {p q : Nat} {item : Item} (hp : item.LiesAt p) (hq : item.LiesAt q) :
    p = q := by
  have hEqual : priorityAt p item.token = priorityAt q item.token := hp.symm.trans hq
  simp only [priorityAt, nestingStep] at hEqual
  omega

section

variable {pivot item : Item} {op child : Operator} {p q : Nat}
  (hOp : pivot.token.operator? = some op) (hPivot : pivot.LiesAt p)
  (hChild : item.token.operator? = some child) (hItem : item.LiesAt q)
include hOp hPivot hChild hItem

/-- An operator in front of a weaker one lies as deep, and deeper if the writer
puts it into parentheses there. -/
theorem deeper_of_front (hFront : pivot.weakerThan item = true) :
    p + (Expr.splitsUnder child op .left).toNat ≤ q := by
  have hBounds := op.priority_bounds
  have hBounds' := child.priority_bounds
  rw [weakerThan_iff, hPivot, hItem, priorityAt_of_operator? hOp, priorityAt_of_operator? hChild,
    hOp] at hFront
  simp only [nestingStep, Option.any_some, decide_eq_true_eq] at hFront
  cases hSplits : Expr.splitsUnder child op .left with
  | false =>
      rw [Bool.toNat_false]
      omega
  | true =>
      rw [Bool.toNat_true]
      unfold Expr.splitsUnder at hSplits
      split at hSplits
      · have hSide : op.associativity ≠ .left := fun hLeft => by simp [hLeft] at hSplits
        simp only [hSide, and_false, or_false] at hFront
        omega
      · rw [decide_eq_true_eq] at hSplits
        omega

/-- An operator that is not weaker than one in front of it lies as deep, and
deeper if the writer puts it into parentheses there. -/
theorem deeper_of_back (hBack : item.weakerThan pivot = false) :
    p + (Expr.splitsUnder child op .right).toNat ≤ q := by
  have hBounds := op.priority_bounds
  have hBounds' := child.priority_bounds
  have hNot : ¬ item.weakerThan pivot = true := by simp [hBack]
  rw [weakerThan_iff, hPivot, hItem, priorityAt_of_operator? hOp, priorityAt_of_operator? hChild,
    hChild, not_or, not_and] at hNot
  simp only [nestingStep, Option.any_some, decide_eq_true_eq] at hNot
  obtain ⟨hHigher, hEqual⟩ := hNot
  cases hSplits : Expr.splitsUnder child op .right with
  | false =>
      rw [Bool.toNat_false]
      omega
  | true =>
      rw [Bool.toNat_true]
      unfold Expr.splitsUnder at hSplits
      split at hSplits
      · next hSame =>
          -- operators of the same strength group to the same side
          have hSide : child.associativity = .left := by
            rw [Operator.associativity_eq_of_priority_eq hSame]
            cases hLeft : op.associativity with
            | left => rfl
            | right => simp [hLeft] at hSplits
          simp only [hSide, not_true_eq_false, imp_false] at hEqual
          omega
      · rw [decide_eq_true_eq] at hSplits
        omega

end

end Item

/-! ## Paying for parentheses -/

namespace Expr

open Grammar

/-- What is climbed along items pays for the parentheses of an expression. For an
operation it pays for the climb from the level in front to the operator as well,
for an operand for the climb to the depth behind it. -/
inductive Pays (level : Nat) (items : List Item) (last climbed : Nat) : Expr → Prop
  | operation {root : Item} {op : Operator} {left right : Expr} {depth : Nat}
      (hRoot : root ∈ heads 0 items) (hOp : root.token.operator? = some op)
      (hDepth : root.LiesAt depth)
      (hPays : (binary op left right).parens + (depth - level) ≤ climbed) :
      Pays level items last climbed (binary op left right)
  | operand {e : Expr} (hPlain : ∀ op side, needsParens op side e = false)
      (hPays : e.parens + (last - level) ≤ climbed) : Pays level items last climbed e

namespace Pays

variable {level last climbed p : Nat} {items : List Item} {e : Expr}

theorem parens_le (hPays : Pays level items last climbed e) : e.parens ≤ climbed := by
  cases hPays with
  | operation _ _ _ hPays => omega
  | operand _ hPays => omega

section

variable {pivot : Item} {op : Operator} (hOp : pivot.token.operator? = some op)
  (hPivot : pivot.LiesAt p)
include hOp hPivot

/-- In front of its operator, the left operand pays for its parentheses, for the
pair around it, and with the climb behind it for that to the operator. -/
theorem front (hPays : Pays level items last climbed e) (hLevel : level ≤ p)
    (hFront : ∀ item ∈ heads 0 items, pivot.weakerThan item = true) :
    e.parens + (needsParens op .left e).toNat + (p - level) ≤ climbed + (p - last) := by
  cases hPays with
  | @operation root child left right depth hRoot hChild hDepth hPays =>
      have hDeeper := deeper_of_front hOp hPivot hChild hDepth (hFront root hRoot)
      rw [needsParens]
      omega
  | operand hPlain hPays =>
      rw [hPlain, Bool.toNat_false]
      omega

/-- Behind its operator, the right operand pays for its parentheses and for the
pair around it. -/
theorem back (hPays : Pays p items last climbed e)
    (hBack : ∀ item ∈ heads 0 items, item.weakerThan pivot = false) :
    e.parens + (needsParens op .right e).toNat ≤ climbed := by
  cases hPays with
  | @operation root child left right depth hRoot hChild hDepth hPays =>
      have hDeeper := deeper_of_back hOp hPivot hChild hDepth (hBack root hRoot)
      rw [needsParens]
      omega
  | operand hPlain hPays =>
      rw [hPlain, Bool.toNat_false]
      omega

end

end Pays

/-- Whatever is climbed along the items pays for the expression, if the level in
front is not below the operators of the top level. -/
def PaysFor (items : List Item) (e : Expr) : Prop :=
  ∀ level last climbed, Climbs level items last climbed →
    (∀ item ∈ heads 0 items, item.token.operator?.isSome → item.LiesFrom level) →
      Pays level items last climbed e

/-- The arguments of a call pay for their parentheses one after the other. -/
private theorem parensAll_le_of_cutAt {separator : Int} {level last climbed : Nat} {follows : Span}
    {items : List Item} {cut : List Argument} {es : List Expr}
    (hSeparator : separator = operandPriority + nestingStep * level)
    (hClimbs : Climbs level items last climbed) (hFrom : ∀ item ∈ items, item.LiesFrom level)
    (hCut : Arguments.cutAt separator 0 follows items = ⟨cut, none⟩)
    (hPays : List.Forall₂ (fun (a : Argument) e => PaysFor a.items e) cut es) :
    parensAll es ≤ climbed := by
  induction hPays generalizing last climbed follows items with
  | nil => cases firstCut_cutAt hCut
  | @cons first e others es hFirst hOthers ih =>
      cases firstCut_cutAt hCut with
      | last hItems =>
          cases hOthers
          subst hItems
          exact (hFirst level last climbed hClimbs
            fun item hMem _ => hFrom item (mem_of_mem_heads hMem)).parens_le
      | @more _ _ comma back hItems hKind hPriority hClosed hBack =>
          obtain ⟨middle, n, m, hFront, hRest, rfl⟩ := hClimbs.split hItems hClosed
          obtain ⟨depth, behind, hReach, hDepth, hBehind, rfl⟩ := hRest.of_cons (by simp [hKind])
          -- the comma lies at the level of the arguments
          have hLevel : depth = level := by
            have hOwn := hDepth.symm.trans (hPriority.trans hSeparator)
            rw [priorityAt_comma hKind] at hOwn
            simp only [nestingStep] at hOwn
            omega
          subst hLevel
          rw [hItems, List.forall_mem_append, List.forall_mem_cons] at hFrom
          rw [covered, hReach, Option.getD_none] at hBack
          have hFirstPays := (hFirst depth middle n hFront
            fun item hMem _ => hFrom.1 item (mem_of_mem_heads hMem)).parens_le
          have hOthersPay := ih hBehind hFrom.2.2 hBack
          rw [parensAll]
          omega

private theorem paysFor_call {first : Item} {rest : List Item} {es : List Expr}
    (hReach : first.reach = some rest.length)
    (hMisplaced : (argumentsOf first rest).misplaced = none)
    (hPays : List.Forall₂ (fun (a : Argument) e => PaysFor a.items e)
      (argumentsOf first rest).arguments es) :
    PaysFor (first :: rest) (call first.token.text es) := by
  intro level last climbed hClimbs _
  obtain ⟨inner, inside, hFirst, hKind, hDeeper, hInside, rfl⟩ := hClimbs.of_call hReach
  have hSum : parensAll es ≤ inside := by
    by_cases hNil : rest = []
    · subst hNil
      cases hPays
      exact Nat.zero_le _
    · have hSeparator : first.priority + nestingStep =
          operandPriority + nestingStep * (last + 1 : Nat) := by
        have hOp : first.token.operator? = none := by simp [Token.operator?, hKind]
        rw [hFirst, priorityAt_of_none hOp, Int.natCast_succ, Int.mul_add, Int.mul_one,
          Int.add_assoc]
      exact parensAll_le_of_cutAt hSeparator hInside hDeeper
        (cutAt_eq_argumentsOf hNil hMisplaced) hPays
  refine .operand (fun _ _ => rfl) ?_
  rw [parens]
  omega

private theorem paysFor_operand {item : Item} {e : Expr} (hReach : item.reach ≠ some 0)
    (hRead : ofToken? item.token = .ok e) : PaysFor [item] e := by
  intro level last climbed hClimbs _
  have hSingle := hClimbs.of_single hReach
  obtain ⟨value, rfl⟩ | ⟨rfl, -, -⟩ := ofToken?_cases hRead
  · exact .operand (fun _ _ => rfl) (by rw [parens]; omega)
  · exact .operand (fun _ _ => rfl) (by rw [parens]; omega)

private theorem paysFor_operation {items front back : List Item} {pivot : Item} {op : Operator}
    {left right : Expr} (hParts : Parts items front pivot back)
    (hOp : pivot.token.operator? = some op) (hLeft : PaysFor front left)
    (hRight : PaysFor back right) : PaysFor items (binary op left right) := by
  intro level last climbed hClimbs hFrom
  obtain ⟨middle, n, m, hFront, hRest, rfl⟩ := hClimbs.split hParts.eq hParts.closed
  obtain ⟨p, behind, hBare, hPivot, hBack, rfl⟩ :=
    hRest.of_cons (by simp [kind_of_operator? hOp])
  have hWeakest := hParts.back
  rw [covered, hBare, Option.getD_none] at hWeakest
  have hHeads : heads 0 items = heads 0 front ++ pivot :: heads 0 back := by
    rw [hParts.eq, hParts.closed.heads_append, heads, covered, hBare, Option.getD_none]
  rw [hHeads, List.forall_mem_append, List.forall_mem_cons] at hFrom
  obtain ⟨hFromFront, hFromPivot, hFromBack⟩ := hFrom
  have hLevel : level ≤ p := by
    obtain ⟨d, hLevel, hDepth⟩ := hFromPivot (by rw [hOp]; rfl)
    rwa [hDepth.unique hPivot] at hLevel
  -- operands behind the pivot may lie above it, but operators do not
  have hFromBack : ∀ item ∈ heads 0 back, item.token.operator?.isSome → item.LiesFrom p := by
    intro item hMem hSome
    obtain ⟨child, hChild⟩ := Option.isSome_iff_exists.1 hSome
    obtain ⟨q, -, hDepth⟩ := hFromBack item hMem hSome
    have hDeeper := deeper_of_back hOp hPivot hChild hDepth (hWeakest item hMem)
    exact ⟨q, by omega, hDepth⟩
  have hPaysFront :=
    (hLeft level middle n hFront hFromFront).front hOp hPivot hLevel hParts.front
  have hPaysBack := (hRight p last behind hBack hFromBack).back hOp hPivot hWeakest
  refine .operation (by simp [hHeads]) hOp hPivot ?_
  rw [parens]
  omega

/-- **What is climbed along items pays for the parentheses of what is read.** -/
theorem paysFor_of_ofItems? {items : List Item} {follows : Span} {e : Expr}
    (hRead : ofItems? follows items = .ok e) : PaysFor items e := by
  refine reading_induction ?call ?operand ?operation hRead
  case call => exact fun _ _ _ => paysFor_call
  case operand => exact fun _ _ => paysFor_operand
  case operation => exact fun _ _ _ _ _ _ _ => paysFor_operation

/-- **A source has as many opening parentheses as the text of what is read**, or
more. -/
theorem parens_le_count {source : List Char} {e : Expr} (hRead : parse source = .ok e) :
    e.parens ≤ source.count '(' := by
  obtain ⟨items, hItems, hRead⟩ := bind_eq_ok_iff.1 hRead
  obtain ⟨b, hProper, hTokens, -, rfl⟩ := Bracketed.exists_of_itemsOf? hItems
  obtain ⟨last, climbed, hClimbs, hBound⟩ := b.exists_climbs hProper 0 0
  have hFrom : ∀ item ∈ heads 0 (b.items 0), item.token.operator?.isSome → item.LiesFrom 0 :=
    fun item hMem _ => b.liesFrom_items 0 item (mem_of_mem_heads hMem)
  have hPays := (paysFor_of_ofItems? hRead 0 last climbed hClimbs hFrom).parens_le
  rw [Bracketed.count_source hTokens hProper]
  omega

/-- **The text of what is read has the fewest parentheses**: no more opening ones
than the source, and if the source can be derived, they lie no deeper inside each
other than in the source, so not too deep. -/
theorem toString_fewest_parens {source : List Char} {e : Expr} (hRead : parse source = .ok e) :
    (toString e).toList.count '(' ≤ source.count '(' ∧
      ∀ d, Derives .expr source [d] →
        nesting 0 (toString e).toList ≤ nesting 0 source ∧
          nesting 0 (toString e).toList ≤ maxNesting := by
  have hReadable := readable_of_parse hRead
  have hText : (toString e).toList = e.written := String.toList_ofList
  constructor
  · rw [hText, count_written hReadable]
    exact parens_le_count hRead
  · intro d hDerives
    have hHeight : nesting 0 source ≤ maxNesting := nesting_le_of_parse hRead
    have hSame : parse source = .ok d :=
      (parse_or_tooDeep hDerives).resolve_right (Nat.not_lt.2 hHeight)
    rw [hRead] at hSame
    cases hSame
    have hNesting := nesting_written_le hReadable hDerives
    exact ⟨hNesting, hNesting.trans hHeight⟩

/-- From `((x-y))*sin((z))` the parentheses that are written are one pair around
the difference and that of the call. -/
theorem toString_fewest_parens_product :
    let source := "((x-y))*sin((z))".toList
    let e := binary .mul (binary .sub (var "x") (var "y")) (call "sin" [var "z"])
    parse source = .ok e ∧ Derives .expr source [e] ∧ toString e = "(x-y)*sin(z)" ∧
      (toString e).toList.count '(' ≤ source.count '(' ∧ (toString e).toList.count '(' = 2 ∧
      nesting 0 (toString e).toList ≤ nesting 0 source := by
  intro source e
  have hText : toString e = "(x-y)*sin(z)" := by decide +kernel
  have hPairs : (toString e).toList.count '(' = 2 := by rw [hText]; decide
  have hDerives : Derives .expr source [e] := by
    have hX : Derives .atom ['x'] [var "x"] := derives_letter (by decide) (by decide)
    have hY : Derives .atom ['y'] [var "y"] := derives_letter (by decide) (by decide)
    have hZ : Derives .atom ['z'] [var "z"] := derives_letter (by decide) (by decide)
    have hSub : Derives .expr "x-y".toList [binary .sub (var "x") (var "y")] :=
      .operation .sub (.term (.power (.atom hX))) (.power (.atom hY))
    have hGroup : Derives .atom "((x-y))".toList [binary .sub (var "x") (var "y")] :=
      .group (.term (.power (.atom (.group hSub))))
    have hArgument : Derives .atom "(z)".toList [var "z"] := .group (.term (.power (.atom hZ)))
    have hSin : Derives .atom "sin((z))".toList [call "sin" [var "z"]] :=
      .call .sin (.lastArgument (.term (.power (.atom hArgument))))
    exact .term (.operation .mul (.power (.atom hGroup)) (.atom hSin))
  have hRead : parse source = .ok e := (parse_or_tooDeep hDerives).resolve_right (by decide)
  obtain ⟨hCount, hNesting⟩ := toString_fewest_parens hRead
  exact ⟨hRead, hDerives, hText, hCount, hPairs, (hNesting e hDerives).1⟩

end Expr

end Fluxion
