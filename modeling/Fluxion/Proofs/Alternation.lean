import Fluxion.Proofs.Lexing
import Fluxion.Proofs.Weakest

/-!
# Operands and operators alternate

Whatever can be read is an alternation: an operand, then operators that have
an operand behind each of them. In calls a comma at the depth of the call may
stand where an operator may. Unlike the expression that is read, the
alternation does not depend on where the items are taken apart, so a list can
be followed along it from left to right.

## Main results

* `alternates_of_ofItems?` — items that can be read alternate.
* `Alternates.split` — a closed part of an alternation is one, from and to
  some phase.
-/

namespace Fluxion.Item

open Token

/-! ## Calls in closed lists -/

/-- Behind a call with everything it covers nothing is covered any more. -/
theorem overhang_call {item : Item} {inside : List Item} (hReach : item.reach = some inside.length)
    (rest : List Item) : overhang 0 (item :: (inside ++ rest)) = overhang 0 rest := by
  rw [overhang, overhang_append, covered, hReach, Option.getD_some,
    overhang_of_length_le (Nat.le_refl _), Nat.sub_self]

/-- A closed list that starts with a call contains all that the call
covers. -/
theorem exists_of_closed_call {item : Item} {inside rest front back : List Item}
    (hReach : item.reach = some inside.length) (hEq : inside ++ rest = front ++ back)
    (hClosed : Closed (item :: front)) :
    ∃ others, front = inside ++ others ∧ rest = others ++ back ∧ Closed others := by
  have hCovered := hClosed.covered_le
  rw [covered, hReach, Option.getD_some] at hCovered
  have hPrefix : inside <+: front := by
    refine List.prefix_of_prefix_length_le (List.prefix_append inside rest) ?_ hCovered
    rw [hEq]
    exact List.prefix_append front back
  obtain ⟨others, rfl⟩ := hPrefix
  rw [List.append_assoc] at hEq
  rw [Closed, overhang_call hReach] at hClosed
  exact ⟨others, rfl, List.append_cancel_left hEq, hClosed⟩

/-! ## Alternation -/

/-- What is wanted next. -/
inductive Phase where
  | operand
  | operator
  deriving DecidableEq, Repr

/-- Operands and operators alternate from one phase to another. Commas of the
priority `separator` may take the place of operators. -/
inductive Alternates : Option Int → Phase → List Item → Phase → Prop
  | nil {separator : Option Int} {p : Phase} : Alternates separator p [] p
  | operand {separator : Option Int} {item : Item} {rest : List Item} {q : Phase}
      (hReach : item.reach = none) (hValue : ∃ e, Expr.ofToken? item.token = .ok e)
      (hRest : Alternates separator .operator rest q) :
      Alternates separator .operand (item :: rest) q
  | call {separator : Option Int} {item : Item} {inside rest : List Item} {q : Phase}
      (hReach : item.reach = some inside.length)
      (hInside : inside ≠ [] →
        Alternates (some (item.priority + nestingStep)) .operand inside .operator)
      (hRest : Alternates separator .operator rest q) :
      Alternates separator .operand (item :: (inside ++ rest)) q
  | operator {separator : Option Int} {item : Item} {rest : List Item} {q : Phase}
      (hReach : item.reach = none) (hOp : item.token.operator?.isSome)
      (hRest : Alternates separator .operand rest q) :
      Alternates separator .operator (item :: rest) q
  | comma {item : Item} {rest : List Item} {q : Phase} (hReach : item.reach = none)
      (hKind : item.token.kind = .comma) (hRest : Alternates (some item.priority) .operand rest q) :
      Alternates (some item.priority) .operator (item :: rest) q

namespace Alternates

variable {separator : Option Int} {p q r : Phase} {front back : List Item}

theorem append (hFront : Alternates separator p front q) (hBack : Alternates separator q back r) :
    Alternates separator p (front ++ back) r := by
  induction hFront with
  | nil => exact hBack
  | operand hReach hValue _ ih => exact .operand hReach hValue (ih hBack)
  | @call _ item inside rest _ hReach hInside _ _ ih =>
      rw [List.cons_append, List.append_assoc]
      exact .call hReach hInside (ih hBack)
  | operator hReach hOp _ ih => exact .operator hReach hOp (ih hBack)
  | comma hReach hKind _ ih => exact .comma hReach hKind (ih hBack)

/-- Without commas there is nothing to separate. -/
theorem weaken {items : List Item} (hItems : Alternates none p items q)
    (separator : Option Int) : Alternates separator p items q := by
  generalize hNone : (none : Option Int) = s at hItems
  induction hItems with
  | nil => exact .nil
  | operand hReach hValue _ ih => exact .operand hReach hValue (ih hNone)
  | call hReach hInside _ _ ih => exact .call hReach hInside (ih hNone)
  | operator hReach hOp _ ih => exact .operator hReach hOp (ih hNone)
  | comma => cases hNone

/-- What an alternation that does not start with a call is made of. -/
theorem of_plain {item : Item} {rest : List Item}
    (hItems : Alternates separator p (item :: rest) q) (hReach : item.reach = none) :
    (p = .operand ∧ (∃ e, Expr.ofToken? item.token = .ok e) ∧
        Alternates separator .operator rest q) ∨
      (p = .operator ∧ (item.token.operator?.isSome ∨
          (separator = some item.priority ∧ item.token.kind = .comma)) ∧
        Alternates separator .operand rest q) := by
  generalize hEq : item :: rest = items at hItems
  cases hItems with
  | nil => cases hEq
  | operand _ hValue hRest =>
      cases hEq
      exact .inl ⟨rfl, hValue, hRest⟩
  | call hSome =>
      cases hEq
      rw [hSome] at hReach
      cases hReach
  | operator _ hOp hRest =>
      cases hEq
      exact .inr ⟨rfl, .inl hOp, hRest⟩
  | comma _ hKind hRest =>
      cases hEq
      exact .inr ⟨rfl, .inr ⟨rfl, hKind⟩, hRest⟩

/-- What an alternation that starts with a call is made of. -/
theorem of_call {item : Item} {inside rest : List Item}
    (hItems : Alternates separator p (item :: (inside ++ rest)) q)
    (hReach : item.reach = some inside.length) :
    p = .operand ∧ Alternates separator .operator rest q ∧
      (inside ≠ [] →
        Alternates (some (item.priority + nestingStep)) .operand inside .operator) := by
  generalize hEq : item :: (inside ++ rest) = items at hItems
  cases hItems with
  | nil => cases hEq
  | operand hNone =>
      cases hEq
      rw [hNone] at hReach
      cases hReach
  | @call _ _ inside' rest' _ hSome hInside hRest =>
      obtain ⟨rfl, hTail⟩ := List.cons.inj hEq
      rw [hSome, Option.some.injEq] at hReach
      obtain ⟨rfl, rfl⟩ := List.append_inj hTail hReach.symm
      exact ⟨rfl, hRest, hInside⟩
  | operator hNone =>
      cases hEq
      rw [hNone] at hReach
      cases hReach
  | comma hNone =>
      cases hEq
      rw [hNone] at hReach
      cases hReach

private theorem split_nil {items : List Item} (hItems : Alternates separator p items r)
    (hEq : items = [] ++ back) :
    ∃ q, Alternates separator p [] q ∧ Alternates separator q back r := by
  rw [hEq] at hItems
  exact ⟨p, .nil, hItems⟩

/-- **A closed part of an alternation is one**, from and to some phase. -/
theorem split {items : List Item} (hItems : Alternates separator p items r)
    (hEq : items = front ++ back) (hClosed : Closed front) :
    ∃ q, Alternates separator p front q ∧ Alternates separator q back r := by
  induction hItems generalizing front with
  | @nil _ p =>
      obtain ⟨rfl, rfl⟩ := List.nil_eq_append_iff.1 hEq
      exact ⟨p, .nil, .nil⟩
  | @operand _ item rest r hReach hValue hRest ih =>
      cases front with
      | nil => exact split_nil (.operand hReach hValue hRest) hEq
      | cons first front =>
          obtain ⟨rfl, rfl⟩ := List.cons.inj hEq
          rw [Closed, overhang, covered, hReach, Option.getD_none] at hClosed
          obtain ⟨q, hFront, hBack⟩ := ih rfl hClosed
          exact ⟨q, .operand hReach hValue hFront, hBack⟩
  | @call _ item inside rest r hReach hInside hRest _ ih =>
      cases front with
      | nil => exact split_nil (.call hReach hInside hRest) hEq
      | cons first front =>
          obtain ⟨rfl, hRestEq⟩ := List.cons.inj hEq
          obtain ⟨others, rfl, rfl, hOthers⟩ := exists_of_closed_call hReach hRestEq hClosed
          obtain ⟨q, hFront, hBack⟩ := ih rfl hOthers
          exact ⟨q, .call hReach hInside hFront, hBack⟩
  | @operator _ item rest r hReach hOp hRest ih =>
      cases front with
      | nil => exact split_nil (.operator hReach hOp hRest) hEq
      | cons first front =>
          obtain ⟨rfl, rfl⟩ := List.cons.inj hEq
          rw [Closed, overhang, covered, hReach, Option.getD_none] at hClosed
          obtain ⟨q, hFront, hBack⟩ := ih rfl hClosed
          exact ⟨q, .operator hReach hOp hFront, hBack⟩
  | @comma item rest r hReach hKind hRest ih =>
      cases front with
      | nil => exact split_nil (.comma hReach hKind hRest) hEq
      | cons first front =>
          obtain ⟨rfl, rfl⟩ := List.cons.inj hEq
          rw [Closed, overhang, covered, hReach, Option.getD_none] at hClosed
          obtain ⟨q, hFront, hBack⟩ := ih rfl hClosed
          exact ⟨q, .comma hReach hKind hFront, hBack⟩

end Alternates

/-! ## Calls inside each other -/

/-- Only names are called, and whatever a call covers is again made of whole
calls and single items. -/
inductive Nested : List Item → Prop
  | nil : Nested []
  | plain {item : Item} {rest : List Item} (hReach : item.reach = none) (hRest : Nested rest) :
      Nested (item :: rest)
  | call {item : Item} {inside rest : List Item} (hReach : item.reach = some inside.length)
      (hKind : item.token.kind = .name) (hInside : Nested inside) (hRest : Nested rest) :
      Nested (item :: (inside ++ rest))

namespace Nested

variable {front back : List Item}

theorem append (hFront : Nested front) (hBack : Nested back) : Nested (front ++ back) := by
  induction hFront with
  | nil => exact hBack
  | plain hReach _ ih => exact .plain hReach ih
  | call hReach hKind hInside _ _ ih =>
      rw [List.cons_append, List.append_assoc]
      exact .call hReach hKind hInside ih

theorem closed {items : List Item} (hNested : Nested items) : Closed items := by
  induction hNested with
  | nil => rfl
  | plain hReach _ ih => rwa [Closed, overhang, covered, hReach]
  | call hReach _ _ _ _ ih => rwa [Closed, overhang_call hReach]

/-- Behind an item that is not a name its calls have nothing to cover. -/
theorem of_cons {item : Item} {rest : List Item} (hNested : Nested (item :: rest))
    (hKind : item.token.kind ≠ .name) : item.reach = none ∧ Nested rest := by
  cases hNested with
  | plain hReach hRest => exact ⟨hReach, hRest⟩
  | call _ hName => exact absurd hName hKind

/-- A call that covers the rest of a list covers nested items. -/
theorem inside {item : Item} {rest : List Item} (hNested : Nested (item :: rest))
    (hReach : item.reach = some rest.length) : Nested rest := by
  generalize hEq : item :: rest = items at hNested
  cases hNested with
  | nil => cases hEq
  | plain hNone =>
      cases hEq
      rw [hNone] at hReach
      cases hReach
  | @call _ inside behind hSome _ hInside =>
      cases hEq
      rw [hSome, Option.some.injEq, List.length_append] at hReach
      obtain rfl : behind = [] := List.length_eq_zero_iff.1 (by omega)
      rwa [List.append_nil]

/-- An item by itself is not called, unless it covers nothing. -/
theorem reach_eq_none {item : Item} (hNested : Nested [item]) (hReach : item.reach ≠ some 0) :
    item.reach = none := by
  have hCovered := hNested.closed.covered_le
  cases hSome : item.reach with
  | none => rfl
  | some reach =>
      rw [covered, hSome, Option.getD_some, List.length_nil, Nat.le_zero] at hCovered
      rw [hSome, hCovered] at hReach
      exact absurd rfl hReach

/-- A closed part of nested items is nested, and so is what remains. -/
theorem split {items : List Item} (hNested : Nested items) (hEq : items = front ++ back)
    (hClosed : Closed front) : Nested front ∧ Nested back := by
  induction hNested generalizing front with
  | nil =>
      obtain ⟨rfl, rfl⟩ := List.nil_eq_append_iff.1 hEq
      exact ⟨.nil, .nil⟩
  | plain hReach hRest ih =>
      cases front with
      | nil => exact ⟨.nil, hEq.subst (motive := Nested) (.plain hReach hRest)⟩
      | cons first front =>
          obtain ⟨rfl, rfl⟩ := List.cons.inj hEq
          rw [Closed, overhang, covered, hReach, Option.getD_none] at hClosed
          obtain ⟨hFront, hBack⟩ := ih rfl hClosed
          exact ⟨.plain hReach hFront, hBack⟩
  | @call item inside rest hReach hKind hInside hRest _ ih =>
      cases front with
      | nil => exact ⟨.nil, hEq.subst (motive := Nested) (.call hReach hKind hInside hRest)⟩
      | cons first front =>
          obtain ⟨rfl, hRestEq⟩ := List.cons.inj hEq
          obtain ⟨others, rfl, rfl, hOthers⟩ := exists_of_closed_call hReach hRestEq hClosed
          obtain ⟨hFront, hBack⟩ := ih rfl hOthers
          exact ⟨.call hReach hKind hInside hFront, hBack⟩

end Nested

/-! ## Items that can be read -/

/-- A token that is an operand by itself is a number or a name. -/
theorem kind_of_exists_ofToken? {t : Token} (hValue : ∃ e, Expr.ofToken? t = .ok e) :
    t.kind = .number ∨ t.kind = .name := by
  obtain ⟨e, hValue⟩ := hValue
  unfold Expr.ofToken? at hValue
  split at hValue
  · next hKind => exact .inl hKind
  · next hKind => exact .inr hKind
  · cases hValue
  · split at hValue <;> cases hValue
  · cases hValue
  · cases hValue

/-- Cutting at commas, step by step: the first argument is everything, or it
ends at a comma behind which the cutting goes on. -/
inductive FirstCut (separator : Int) (skip : Nat) (items : List Item) :
    List Argument → Prop
  | last {first : Argument} (hItems : first.items = items) : FirstCut separator skip items [first]
  | more {first : Argument} {others : List Argument} {comma : Item} {back : List Item}
      (hItems : items = first.items ++ comma :: back) (hKind : comma.token.kind = .comma)
      (hPriority : comma.priority = separator) (hClosed : overhang skip first.items = 0)
      (hBack : Arguments.cutAt separator comma.covered comma.token.span back = ⟨others, none⟩) :
      FirstCut separator skip items (first :: others)

section

variable {separator : Int} {skip : Nat} {cut : List Argument}

/-- An item that goes to the first argument of what is cut behind it. -/
private theorem firstCut_consItem {item : Item} {rest : List Item} {tail : Arguments} {skip' : Nat}
    (hSkip : overhang skip' [item] = skip)
    (hTail : ∀ {cut : List Argument}, tail = ⟨cut, none⟩ → FirstCut separator skip rest cut)
    (hCut : tail.consItem item = ⟨cut, none⟩) : FirstCut separator skip' (item :: rest) cut := by
  obtain ⟨arguments, misplaced⟩ := tail
  have hMisplaced : misplaced = none := by
    cases arguments <;> exact congrArg Arguments.misplaced hCut
  subst hMisplaced
  cases hTail rfl with
  | last hItems =>
      cases hCut
      exact .last (congrArg (item :: ·) hItems)
  | more hItems hKind hPriority hClosed hBack =>
      cases hCut
      refine .more (congrArg (item :: ·) hItems) hKind hPriority ?_ hBack
      rw [← List.singleton_append, overhang_append, hSkip, hClosed]

theorem firstCut_cutAt {items : List Item} {follows : Span}
    (hCut : Arguments.cutAt separator skip follows items = ⟨cut, none⟩) :
    FirstCut separator skip items cut := by
  induction items generalizing skip follows cut with
  | nil =>
      cases hCut
      exact .last rfl
  | cons item rest ih =>
      cases skip with
      | succ skip =>
          rw [Arguments.cutAt] at hCut
          exact firstCut_consItem rfl ih hCut
      | zero =>
          rw [Arguments.cutAt] at hCut
          split at hCut
          · next hKind =>
              split at hCut
              · next hPriority =>
                  generalize hTail : Arguments.cutAt separator item.covered item.token.span rest =
                    tail at hCut
                  obtain ⟨arguments, misplaced⟩ := tail
                  cases hCut
                  exact .more rfl hKind hPriority rfl hTail
              · cases hCut
          · exact firstCut_consItem rfl ih hCut

/-- Arguments that alternate make an alternation with commas. -/
private theorem alternates_of_cutAt {items : List Item} {follows : Span} {es : List Expr}
    (hNested : Nested items) (hCut : Arguments.cutAt separator 0 follows items = ⟨cut, none⟩)
    (hArguments : List.Forall₂ (fun (a : Argument) (_ : Expr) =>
      Nested a.items → Alternates none .operand a.items .operator) cut es) :
    Alternates (some separator) .operand items .operator := by
  induction hArguments generalizing items follows with
  | nil => cases firstCut_cutAt hCut
  | cons hFirstArgument _ ih =>
      cases firstCut_cutAt hCut with
      | last hFirst =>
          subst hFirst
          exact (hFirstArgument hNested).weaken _
      | @more _ _ comma back hEq hKind hPriority hClosed hBack =>
          subst hPriority
          obtain ⟨hFirst, hRest⟩ := hNested.split hEq hClosed
          obtain ⟨hReach, hRest⟩ := hRest.of_cons (by simp [hKind])
          rw [covered, hReach, Option.getD_none] at hBack
          rw [hEq]
          exact ((hFirstArgument hFirst).weaken _).append (.comma hReach hKind (ih hRest hBack))

end

/-- **Items that can be read alternate.** -/
theorem alternates_of_ofItems? {items : List Item} {follows : Span} {e : Expr}
    (hNested : Nested items) (hRead : Expr.ofItems? follows items = .ok e) :
    Alternates none .operand items .operator := by
  refine reading_induction
    (motive := fun items _ => Nested items → Alternates none .operand items .operator)
    ?call ?operand ?operation hRead hNested
  case call =>
    intro first rest es hReach hMisplaced hArguments hNested
    have hInside : rest ≠ [] →
        Alternates (some (first.priority + nestingStep)) .operand rest .operator := fun hSome =>
      alternates_of_cutAt (hNested.inside hReach) (cutAt_eq_argumentsOf hSome hMisplaced) hArguments
    have hCall : Alternates none .operand (first :: (rest ++ [])) .operator :=
      .call hReach hInside .nil
    rwa [List.append_nil] at hCall
  case operand =>
    intro item e hReach hRead hNested
    exact .operand (hNested.reach_eq_none hReach) ⟨e, hRead⟩ .nil
  case operation =>
    intro items front pivot back op left right hParts hOp hLeft hRight hNested
    obtain ⟨hFront, hRest⟩ := hNested.split hParts.eq hParts.closed
    obtain ⟨hPivot, hBack⟩ := hRest.of_cons (by simp [kind_of_operator? hOp])
    rw [hParts.eq]
    exact (hLeft hFront).append (.operator hPivot (by rw [hOp]; rfl) (hRight hBack))

end Fluxion.Item
