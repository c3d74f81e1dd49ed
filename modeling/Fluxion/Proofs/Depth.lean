import Fluxion.Proofs.Precedence
import Fluxion.Proofs.Printing
import Fluxion.Proofs.Provenance

/-!
# How deep the text of an expression nests

The writer puts parentheses around an operand only where the grammar leaves no
other choice, so whatever a phrase is read as is written with parentheses that
lie no deeper inside each other than its own. The depth of the text can be
computed from the expression; along a phrase it is followed together with the
one pair that an operand may still need for itself.

## Main results

* `Expr.nesting_written` — the text of an expression nests as deep as the
  expression.
* `Grammar.depth_le_height` — an expression is no deeper than a phrase for it.
* `Grammar.nesting_written_le` — its text nests no deeper than any text from
  which it can be derived.
-/

namespace Fluxion.Grammar

/-! ## Nesting of texts put together -/

/-- The text is balanced and nests the given number of pairs, wherever it
stands. -/
def Nests (s : List Char) (depth : Nat) : Prop :=
  ∀ opened rest, nesting opened (s ++ rest) = max (opened + depth) (nesting opened rest)

namespace Nests

variable {s t : List Char} {j k : Nat}

theorem nesting_eq (hs : Nests s k) : nesting 0 s = k := by
  have hWhole := hs 0 []
  rw [List.append_nil] at hWhole
  rw [hWhole, nesting]
  omega

theorem of_noParen (hPlain : ∀ c ∈ s, c ≠ '(' ∧ c ≠ ')') : Nests s 0 := by
  intro opened rest
  rw [nesting_append_of_noParen opened rest hPlain, Nat.add_zero]
  exact (Nat.max_eq_right (le_nesting opened rest)).symm

theorem append (hs : Nests s j) (ht : Nests t k) : Nests (s ++ t) (max j k) := by
  intro opened rest
  rw [List.append_assoc, hs, ht]
  omega

/-- A character other than a parenthesis changes nothing. -/
theorem cons {c : Char} (hPlain : c ≠ '(' ∧ c ≠ ')') (hs : Nests s k) : Nests (c :: s) k := by
  have hFirst : Nests [c] 0 := of_noParen (List.forall_mem_singleton.2 hPlain)
  have hWhole := hFirst.append hs
  rwa [Nat.zero_max] at hWhole

theorem parenthesized (hs : Nests s k) : Nests ('(' :: (s ++ [')'])) (k + 1) := by
  intro opened rest
  have hClosing : nesting (opened + 1) (')' :: rest) = max (opened + 1) (nesting opened rest) := by
    rw [nesting, if_neg (by decide), if_pos rfl, Nat.add_sub_cancel]
  have hText : '(' :: (s ++ [')']) ++ rest = '(' :: (s ++ ')' :: rest) := by simp
  rw [hText, nesting, if_pos rfl, hs, hClosing]
  omega

end Nests

end Fluxion.Grammar

namespace Fluxion.Expr

open Grammar Number Token

/-! ## The depth of an expression -/

mutual

/-- The most pairs of parentheses inside each other in the text of an
expression without constants below zero. -/
def depth : Expr → Nat
  | const _ | var _ => 0
  | binary op left right =>
    max (left.depth + (needsParens op .left left).toNat)
      (right.depth + (needsParens op .right right).toNat)
  | call _ arguments => depths arguments + 1

/-- The greatest depth among the expressions of a list. -/
def depths : List Expr → Nat
  | [] => 0
  | e :: rest => max e.depth (depths rest)

end

theorem depths_le_iff {es : List Expr} {bound : Nat} :
    depths es ≤ bound ↔ ∀ e ∈ es, e.depth ≤ bound := by
  induction es with
  | nil => simp [depths]
  | cons e rest ih => rw [depths, Nat.max_le, ih, List.forall_mem_cons]

/-! ## Written expressions -/

theorem noParen_of_isAlpha {c : Char} (hLetter : c.isAlpha) : c ≠ '(' ∧ c ≠ ')' :=
  Kind.noParen_of_ofChar? (Kind.ofChar?_of_isAlpha hLetter) rfl

theorem constantText_infinity :
    constantText (ofPattern false infinityPattern) = ['i', 'n', 'f'] := by
  decide +kernel

theorem noParen_constantText {pattern : Nat} (hPattern : pattern ≤ infinityPattern) :
    ∀ c ∈ constantText (ofPattern false pattern), c ≠ '(' ∧ c ≠ ')' := by
  rcases Nat.lt_or_eq_of_le hPattern with hFinite | rfl
  · obtain ⟨d, hSpells, -⟩ := exists_spells_plainMagnitude hFinite
    have hText : constantText (ofPattern false pattern) = plainMagnitude pattern := by
      rw [constantText, unsigned, view_ofPattern hFinite]
      rfl
    rw [hText]
    exact fun c hc => Kind.noParen_of_ofChar? (hSpells.ofKind.2 c hc) rfl
  · have hLetters : ['i', 'n', 'f'].all Char.isAlpha = true := by decide
    rw [constantText_infinity]
    exact fun c hc => noParen_of_isAlpha (List.all_eq_true.1 hLetters c hc)

private theorem nests_enclose {s : List Char} {k : Nat} (hs : Nests s k) (wanted : Bool) :
    Nests (enclose wanted s) (k + wanted.toNat) := by
  cases wanted with
  | false => exact hs
  | true => exact hs.parenthesized

mutual

/-- **The text of an expression nests as deep as the expression.** -/
theorem nests_written {e : Expr} (hReadable : e.Every Node.Readable) :
    Nests e.written e.depth := by
  match e with
  | const value =>
      obtain ⟨pattern, hPattern, rfl⟩ := (every_const value).1 hReadable
      exact .of_noParen (noParen_constantText hPattern)
  | var name =>
      obtain ⟨-, hLetters, -⟩ := (every_var name).1 hReadable
      exact .of_noParen fun c hc => noParen_of_isAlpha (hLetters c hc)
  | binary op left right =>
      obtain ⟨-, hLeft, hRight⟩ := (every_binary op left right).1 hReadable
      have hFront := nests_enclose (nests_written hLeft) (needsParens op .left left)
      have hBack := nests_enclose (nests_written hRight) (needsParens op .right right)
      exact hFront.append (hBack.cons (Kind.noParen_of_ofChar? (Kind.ofChar?_symbol op) rfl))
  | call function arguments =>
      obtain ⟨hFunction, hArguments⟩ := (every_call function arguments).1 hReadable
      obtain ⟨f, hf⟩ := Option.isSome_iff_exists.1 hFunction
      obtain rfl := Function.name_of_ofName? hf
      have hName : Nests f.name.toList 0 :=
        .of_noParen fun c hc => noParen_of_isAlpha (isAlpha_of_mem_name f c hc)
      have hCall := hName.append (nests_writtenAll hArguments).parenthesized
      rw [Nat.zero_max] at hCall
      rw [written_call, depth]
      exact hCall

theorem nests_writtenAll {es : List Expr} (hReadable : ∀ e ∈ es, e.Every Node.Readable) :
    Nests (writtenAll es) (depths es) := by
  match es with
  | [] => exact .of_noParen (by simp [writtenAll])
  | [e] =>
      have hOnly := nests_written (hReadable e (by simp))
      rw [writtenAll, depths, depths, Nat.max_zero]
      exact hOnly
  | e :: next :: rest =>
      obtain ⟨hFirst, hMore⟩ := List.forall_mem_cons.1 hReadable
      have hRest := (nests_writtenAll hMore).cons (c := ',') (by decide)
      rw [writtenAll, depths]
      · exact (nests_written hFirst).append hRest
      · simp

end

theorem nesting_written {e : Expr} (hReadable : e.Every Node.Readable) :
    nesting 0 (toString e).toList = e.depth := by
  have hText : (toString e).toList = e.written := String.toList_ofList
  rw [hText]
  exact (nests_written hReadable).nesting_eq

end Fluxion.Expr

namespace Fluxion.Grammar

open Fluxion.Expr Token Bracketed

/-! ## Depth along a phrase -/

/-- The writer encloses only operands that the grammar does not admit as they
are. -/
theorem floor_lt_of_needsParens {op : Operator} {side : Side} {e : Expr}
    (hParens : needsParens op side e = true) :
    (level e).floor < (Symbol.operand op side).floor := by
  cases e with
  | const | var | call => cases hParens
  | binary child left right =>
      rw [needsParens] at hParens
      show (Symbol.ofOperator child).floor < _
      revert hParens
      cases child <;> cases op <;> cases side <;> decide

/-- The depth of an expression together with the pair of parentheses that it
needs to stand for a nonterminal. -/
def depthAs (n : Symbol) (e : Expr) : Nat :=
  e.depth + (decide ((level e).floor < n.floor)).toNat

theorem depth_le_depthAs (n : Symbol) (e : Expr) : e.depth ≤ depthAs n e :=
  Nat.le_add_right _ _

theorem depthAs_le (n : Symbol) (e : Expr) : depthAs n e ≤ e.depth + 1 :=
  Nat.add_le_add_left (Bool.toNat_le _) _

/-- A nonterminal that does not bind more strongly than the expression needs no
parentheses. -/
theorem depthAs_of_le {n : Symbol} {e : Expr} (hFloor : n.floor ≤ (level e).floor) :
    depthAs n e = e.depth := by
  rw [depthAs, decide_eq_false (Nat.not_lt.2 hFloor)]
  rfl

theorem depthAs_mono {n m : Symbol} (hFloor : n.floor ≤ m.floor) (e : Expr) :
    depthAs n e ≤ depthAs m e := by
  by_cases hSmall : n.floor ≤ (level e).floor
  · rw [depthAs_of_le hSmall]
    exact depth_le_depthAs m e
  · have hSmaller : (level e).floor < n.floor := Nat.lt_of_not_le hSmall
    rw [depthAs, depthAs, decide_eq_true hSmaller,
      decide_eq_true (Nat.lt_of_lt_of_le hSmaller hFloor)]

private theorem depth_operand_le (op : Operator) (side : Side) (e : Expr) :
    e.depth + (needsParens op side e).toNat ≤ depthAs (Symbol.operand op side) e := by
  cases hParens : needsParens op side e with
  | false => exact depth_le_depthAs _ e
  | true => rw [depthAs, decide_eq_true (floor_lt_of_needsParens hParens)]

private theorem depth_named (name : List Char) : depthAs .atom (named name) = 0 := by
  rw [named_eq]
  split <;> rfl

/-- **An expression is no deeper than a phrase for it**, with the parentheses
that it needs to stand where the phrase stands. -/
theorem depth_le_height {n : Symbol} {b : Bracketed} {es : List Expr} (hPhrase : Phrase n b es) :
    ∀ e ∈ es, depthAs n e ≤ b.height := by
  induction hPhrase with
  | number => exact List.forall_mem_singleton.2 (Nat.le_refl 0)
  | @name t =>
      rw [List.forall_mem_singleton, depth_named]
      exact Nat.zero_le _
  | @group opening closing inside e _ ih =>
      -- the pair that groups is enough for whatever pair the expression needs
      rw [List.forall_mem_singleton] at ih ⊢
      have hInside := depth_le_depthAs .expr e
      have hOutside := depthAs_le .atom e
      rw [height, height]
      omega
  | emptyCall => exact List.forall_mem_singleton.2 (Nat.le_refl 1)
  | @call name opening closing inside es _ _ ih =>
      have hArguments : depths es ≤ inside.height := by
        rw [depths_le_iff]
        intro e he
        exact Nat.le_trans (depth_le_depthAs .arguments e) (ih e he)
      have hCall : depthAs .atom (.call name.text es) = depths es + 1 :=
        depthAs_of_le (Nat.le_refl _)
      rw [List.forall_mem_singleton, hCall, height, height]
      omega
  | @operation op t x y a b _ _ _ ihLeft ihRight =>
      rw [List.forall_mem_singleton] at ihLeft ihRight ⊢
      have hLeft := depth_operand_le op .left a
      have hRight := depth_operand_le op .right b
      have hOperation : depthAs (.ofOperator op) (binary op a b) = (binary op a b).depth :=
        depthAs_of_le (Nat.le_refl _)
      rw [hOperation, depth, height_append, height]
      omega
  | term _ ih =>
      rw [List.forall_mem_singleton] at ih ⊢
      exact Nat.le_trans (depthAs_mono (by decide) _) ih
  | power _ ih =>
      rw [List.forall_mem_singleton] at ih ⊢
      exact Nat.le_trans (depthAs_mono (by decide) _) ih
  | atom _ ih =>
      rw [List.forall_mem_singleton] at ih ⊢
      exact Nat.le_trans (depthAs_mono (by decide) _) ih
  | lastArgument _ ih =>
      rw [List.forall_mem_singleton] at ih ⊢
      exact Nat.le_trans (depthAs_mono (by decide) _) ih
  | @moreArguments t x y e es _ _ _ ihFirst ihMore =>
      rw [List.forall_mem_singleton] at ihFirst
      rw [height_append, height, List.forall_mem_cons]
      constructor
      · have hFirst := depthAs_mono (n := .arguments) (m := .expr) (by decide) e
        omega
      · intro e he
        exact Nat.le_trans (ihMore e he) (Nat.le_max_right _ _)

/-- **The text of an expression nests no deeper** than a text that it can be
derived from. -/
theorem nesting_written_le {source : List Char} {e : Expr}
    (hReadable : e.Every Node.Readable) (hDerives : Derives .expr source [e]) :
    nesting 0 (toString e).toList ≤ nesting 0 source := by
  obtain ⟨b, hTokens, hProper, hPhrase⟩ := exists_phrase hDerives 0
  have hDepth := depth_le_height hPhrase e List.mem_cons_self
  rw [nesting_written hReadable, nesting_source hTokens hProper]
  exact Nat.le_trans (depth_le_depthAs .expr e) hDepth

end Fluxion.Grammar
