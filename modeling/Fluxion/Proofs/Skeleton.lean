import Fluxion.Proofs.Alternation
import Fluxion.Proofs.Bracketed

/-!
# What is left without grouping parentheses

Grouping parentheses decide which operator binds first, and a group that is
neither an operand nor a part of one does no harm: `x*(y+)4` is an expression.
So what sources have to look like is best said without them. The skeleton of a
source is what is left when its grouping parentheses are deleted; those of
calls stay. It has to be a chain of operands and operators, and so has every
argument of a call in it.

The same can be followed along the source itself, groups seen through, from
one phase to the next: `Bracketed.Leads`. That the two agree rests on there
being one way only to match the parentheses of a sequence of tokens.

## Main results

* `Bracketed.eq_of_tokens_eq` — parentheses can be matched in one way only.
* `Bracketed.leads_ungroup` — grouping parentheses are seen through.
* `Bracketed.skeleton_iff_leads` — skeletons that are chains are those that lead
  from operand to operator, without commas outside of calls.
-/

namespace Fluxion

open Item (Phase)

/-! ## The grammar of skeletons -/

namespace Token

/-- A numeral: digits with at most one point among them. -/
def IsNumeral (t : Token) : Prop :=
  t.kind = .number ∧ t.lexeme.count '.' ≤ 1 ∧ ∃ c ∈ t.lexeme, c.isDigit

/-- An operand of one token: a numeral or a name. -/
def IsOperand (t : Token) : Prop :=
  t.IsNumeral ∨ t.kind = .name

/-- A run of a single operator character. -/
def IsSign (t : Token) : Prop :=
  t.kind = .operator ∧ t.lexeme.length = 1

theorem IsOperand.kind_ne_comma {t : Token} (hOperand : t.IsOperand) : t.kind ≠ .comma := by
  rcases hOperand with ⟨hKind, -⟩ | hKind <;> simp [hKind]

theorem IsSign.kind_ne_comma {t : Token} (hSign : t.IsSign) : t.kind ≠ .comma := by
  simp [hSign.1]

end Token

/-- The parts of a skeleton. -/
inductive Part where
  /-- Operands with operators between them. -/
  | chain
  /-- A numeral, a name or a call. -/
  | operand
  /-- The arguments of a call. -/
  | arguments
  deriving DecidableEq, Repr

/-- The sequences of tokens that make a part of a skeleton. -/
inductive Skeleton : Part → List Token → Prop
  | single {a : List Token} (hOperand : Skeleton .operand a) : Skeleton .chain a
  | operation {a ts : List Token} {t : Token} (hOperand : Skeleton .operand a) (hSign : t.IsSign)
      (hChain : Skeleton .chain ts) : Skeleton .chain (a ++ t :: ts)
  | number {t : Token} (hNumeral : t.IsNumeral) : Skeleton .operand [t]
  | name {t : Token} (hKind : t.kind = .name) : Skeleton .operand [t]
  | emptyCall {name opening closing : Token} (hName : name.namesFunction)
      (hOpening : opening.kind = .openParen) (hClosing : closing.kind = .closeParen) :
      Skeleton .operand [name, opening, closing]
  | call {name opening closing : Token} {ts : List Token} (hName : name.namesFunction)
      (hOpening : opening.kind = .openParen) (hClosing : closing.kind = .closeParen)
      (hArguments : Skeleton .arguments ts) :
      Skeleton .operand (name :: opening :: (ts ++ [closing]))
  | last {ts : List Token} (hChain : Skeleton .chain ts) : Skeleton .arguments ts
  | more {ts us : List Token} {comma : Token} (hChain : Skeleton .chain ts)
      (hComma : comma.kind = .comma) (hMore : Skeleton .arguments us) :
      Skeleton .arguments (ts ++ comma :: us)

namespace Bracketed

/-- The sequence without its grouping parentheses. -/
def ungroup : Bracketed → Bracketed
  | nil => nil
  | word t rest => word t rest.ungroup
  | group _ _ inside rest => inside.ungroup ++ rest.ungroup
  | call name opening closing inside rest =>
    call name opening closing inside.ungroup rest.ungroup

/-- The innermost pair around every comma belongs to a call; `inCall` says so
for the commas that no pair of the sequence encloses. -/
def CommasIn (inCall : Prop) : Bracketed → Prop
  | nil => True
  | word t rest => (t.kind = .comma → inCall) ∧ rest.CommasIn inCall
  | group _ _ inside rest => inside.CommasIn False ∧ rest.CommasIn inCall
  | call _ _ _ inside rest => inside.CommasIn True ∧ rest.CommasIn inCall

/-- The sequence leads from one phase to another: operands alternate with
operators and commas, and what a call encloses does too. -/
def Leads : Bracketed → Phase → Phase → Prop
  | nil, p, q => p = q
  | word t rest, p, q =>
    (p = .operand ∧ t.IsOperand ∧ rest.Leads .operator q) ∨
      (p = .operator ∧ (t.IsSign ∨ t.kind = .comma) ∧ rest.Leads .operand q)
  | group _ _ inside rest, p, q => ∃ r, inside.Leads p r ∧ rest.Leads r q
  | call _ _ _ inside rest, p, q =>
    p = .operand ∧ (inside.size = 0 ∨ inside.Leads .operand .operator) ∧ rest.Leads .operator q

/-! ## Parentheses match in one way -/

/-- No token of a sequence can be in front of what it stops at. -/
private def Stops (ts : List Token) : Prop :=
  ∀ t ∈ ts.head?, t.kind = .closeParen

private theorem eq_nil_of_stops {b : Bracketed} (hProper : b.Proper) {x y : List Token}
    (hEq : b.tokens ++ x = y) (hStops : Stops y) : b = nil := by
  subst hEq
  cases b with
  | nil => rfl
  | word t rest =>
      have hKind : t.kind = .closeParen := hStops t rfl
      simp [Proper, Token.isParen_eq_false_iff, hKind] at hProper
  | group opening closing inside rest =>
      have hKind : opening.kind = .closeParen := hStops opening rfl
      simp [Proper, hKind] at hProper
  | call name opening closing inside rest =>
      have hKind : name.kind = .closeParen := hStops name rfl
      simp [Proper, Token.namesFunction, hKind] at hProper

/-- A function's name that is not called is not in front of a parenthesis. -/
private theorem not_called {name opening : Token} {rest : Bracketed} {following ts : List Token}
    (hProper : (word name rest).Proper) (hName : name.namesFunction)
    (hOpening : opening.kind = .openParen) (hStops : Stops following) :
    rest.tokens ++ following ≠ opening :: ts := by
  intro hEq
  have hFollowing : ∀ next ∈ following.head?, next.kind ≠ .openParen := by
    intro next hNext
    rw [hStops next hNext]
    decide
  have hApart := head?_tokens_append hProper.2.2 (hProper.2.1 hName) hFollowing
  rw [hEq] at hApart
  exact hApart opening rfl hOpening

private theorem eq_of_tokens_append {a b : Bracketed} (ha : a.Proper) (hb : b.Proper)
    {x y : List Token} (hx : Stops x) (hy : Stops y) (hEq : a.tokens ++ x = b.tokens ++ y) :
    a = b ∧ x = y := by
  induction a generalizing b x y with
  | nil =>
      obtain rfl := eq_nil_of_stops hb hEq.symm hx
      exact ⟨rfl, hEq⟩
  | word t rest ih =>
      cases b with
      | nil => cases eq_nil_of_stops ha hEq hy
      | word t' rest' =>
          obtain ⟨rfl, hTail⟩ := List.cons.inj hEq
          obtain ⟨rfl, rfl⟩ := ih ha.2.2 hb.2.2 hx hy hTail
          exact ⟨rfl, rfl⟩
      | group opening closing inside rest' =>
          obtain ⟨rfl, -⟩ := List.cons.inj hEq
          simp [Proper, Token.isParen_eq_false_iff, hb.1] at ha
      | call name opening closing inside rest' =>
          obtain ⟨rfl, hTail⟩ := List.cons.inj hEq
          exact absurd hTail (not_called ha hb.1 hb.2.1 hx)
  | group opening closing inside rest ihInside ih =>
      cases b with
      | nil => cases eq_nil_of_stops ha hEq hy
      | word t' rest' =>
          obtain ⟨rfl, -⟩ := List.cons.inj hEq
          simp [Proper, Token.isParen_eq_false_iff, ha.1] at hb
      | group opening' closing' inside' rest' =>
          simp only [tokens, List.cons_append, List.append_assoc, List.cons.injEq] at hEq
          obtain ⟨rfl, hTail⟩ := hEq
          obtain ⟨rfl, hRest⟩ := ihInside ha.2.2.1 hb.2.2.1 (by simp [Stops, ha.2.1])
            (by simp [Stops, hb.2.1]) hTail
          obtain ⟨rfl, hBehind⟩ := List.cons.inj hRest
          obtain ⟨rfl, rfl⟩ := ih ha.2.2.2 hb.2.2.2 hx hy hBehind
          exact ⟨rfl, rfl⟩
      | call name' opening' closing' inside' rest' =>
          obtain ⟨rfl, -⟩ := List.cons.inj hEq
          simp [Proper, Token.namesFunction, ha.1] at hb
  | call name opening closing inside rest ihInside ih =>
      cases b with
      | nil => cases eq_nil_of_stops ha hEq hy
      | word t' rest' =>
          obtain ⟨rfl, hTail⟩ := List.cons.inj hEq
          exact absurd hTail.symm (not_called hb ha.1 ha.2.1 hy)
      | group opening' closing' inside' rest' =>
          obtain ⟨rfl, -⟩ := List.cons.inj hEq
          simp [Proper, Token.namesFunction, hb.1] at ha
      | call name' opening' closing' inside' rest' =>
          simp only [tokens, List.cons_append, List.append_assoc, List.cons.injEq] at hEq
          obtain ⟨rfl, rfl, hTail⟩ := hEq
          obtain ⟨rfl, hRest⟩ := ihInside ha.2.2.2.1 hb.2.2.2.1 (by simp [Stops, ha.2.2.1])
            (by simp [Stops, hb.2.2.1]) hTail
          obtain ⟨rfl, hBehind⟩ := List.cons.inj hRest
          obtain ⟨rfl, rfl⟩ := ih ha.2.2.2.2 hb.2.2.2.2 hx hy hBehind
          exact ⟨rfl, rfl⟩

/-- **Parentheses can be matched in one way only.** -/
theorem eq_of_tokens_eq {a b : Bracketed} (ha : a.Proper) (hb : b.Proper)
    (hEq : a.tokens = b.tokens) : a = b := by
  have hStops : Stops [] := by simp [Stops]
  refine (eq_of_tokens_append ha hb hStops hStops ?_).1
  rw [hEq]

/-! ## Deleting grouping parentheses -/

@[simp] theorem size_append (a b : Bracketed) : (a ++ b).size = a.size + b.size := by
  rw [← length_items 0, items_append, List.length_append, length_items, length_items]

@[simp] theorem size_ungroup (b : Bracketed) : b.ungroup.size = b.size := by
  induction b with
  | nil => rfl
  | word t rest ih => simp [ungroup, size, ih]
  | group _ _ inside rest ihInside ih => simp [ungroup, size, ihInside, ih]
  | call _ _ _ inside rest ihInside ih => simp [ungroup, size, ihInside, ih]

/-- There are no grouping parentheses. -/
def GroupFree : Bracketed → Prop
  | nil => True
  | word _ rest => rest.GroupFree
  | group .. => False
  | call _ _ _ inside rest => inside.GroupFree ∧ rest.GroupFree

theorem GroupFree.append {a b : Bracketed} (ha : a.GroupFree) (hb : b.GroupFree) :
    (a ++ b).GroupFree := by
  induction a with
  | nil => exact hb
  | word t rest ih => exact ih ha
  | group opening closing inside rest => exact ha.elim
  | call name opening closing inside rest _ ih => exact ⟨ha.1, ih ha.2⟩

theorem groupFree_ungroup (b : Bracketed) : b.ungroup.GroupFree := by
  induction b with
  | nil => trivial
  | word t rest ih => exact ih
  | group _ _ inside rest ihInside ih => exact ihInside.append ih
  | call _ _ _ inside rest ihInside ih => exact ⟨ihInside, ih⟩

theorem GroupFree.startsGroup {b : Bracketed} (hFree : b.GroupFree) : b.startsGroup = false := by
  cases b with
  | group opening closing inside rest => exact hFree.elim
  | nil | word | call => rfl

theorem Proper.ungroup {b : Bracketed} (hProper : b.Proper) : b.ungroup.Proper := by
  induction b with
  | nil => trivial
  | word t rest ih =>
      exact ⟨hProper.1, fun _ => (groupFree_ungroup rest).startsGroup, ih hProper.2.2⟩
  | group opening closing inside rest ihInside ih =>
      exact (ihInside hProper.2.2.1).append (ih hProper.2.2.2) (groupFree_ungroup rest).startsGroup
  | call name opening closing inside rest ihInside ih =>
      obtain ⟨hName, hOpening, hClosing, hInside, hRest⟩ := hProper
      exact ⟨hName, hOpening, hClosing, ihInside hInside, ih hRest⟩

/-! ## Commas -/

theorem CommasIn.mono {b : Bracketed} {inCall inCall' : Prop} (hCommas : b.CommasIn inCall)
    (h : inCall → inCall') : b.CommasIn inCall' := by
  induction b with
  | nil => trivial
  | word t rest ih => exact ⟨fun hComma => h (hCommas.1 hComma), ih hCommas.2⟩
  | group _ _ inside rest _ ih => exact ⟨hCommas.1, ih hCommas.2⟩
  | call _ _ _ inside rest _ ih => exact ⟨hCommas.1, ih hCommas.2⟩

theorem CommasIn.append {a b : Bracketed} {inCall : Prop} (ha : a.CommasIn inCall)
    (hb : b.CommasIn inCall) : (a ++ b).CommasIn inCall := by
  induction a with
  | nil => exact hb
  | word t rest ih => exact ⟨ha.1, ih ha.2⟩
  | group _ _ inside rest _ ih => exact ⟨ha.1, ih ha.2⟩
  | call _ _ _ inside rest _ ih => exact ⟨ha.1, ih ha.2⟩

theorem CommasIn.ungroup {b : Bracketed} {inCall : Prop} (hCommas : b.CommasIn inCall) :
    b.ungroup.CommasIn inCall := by
  induction b generalizing inCall with
  | nil => trivial
  | word t rest ih => exact ⟨hCommas.1, ih hCommas.2⟩
  | group _ _ inside rest ihInside ih =>
      exact ((ihInside hCommas.1).mono False.elim).append (ih hCommas.2)
  | call _ _ _ inside rest ihInside ih => exact ⟨ihInside hCommas.1, ih hCommas.2⟩

/-- Where there are no tokens but parentheses there are no commas. -/
theorem commasIn_of_size_eq_zero {b : Bracketed} (hSize : b.size = 0) (inCall : Prop) :
    b.CommasIn inCall := by
  induction b generalizing inCall with
  | nil => trivial
  | word t rest => cases hSize
  | group _ _ inside rest ihInside ih =>
      have hEmpty := Nat.add_eq_zero_iff.1 hSize
      exact ⟨ihInside hEmpty.1 False, ih hEmpty.2 inCall⟩
  | call name _ _ inside rest => cases hSize

/-! ## Leading from phase to phase -/

theorem leads_append {a b : Bracketed} {p q : Phase} :
    (a ++ b).Leads p q ↔ ∃ r, a.Leads p r ∧ b.Leads r q := by
  induction a generalizing p with
  | nil => simp [Leads]
  | word t rest ih =>
      simp only [word_append, Leads, ih, or_and_right, exists_or, and_assoc, exists_and_left]
  | group _ _ inside rest _ ih =>
      simp only [group_append, Leads, ih]
      constructor
      · rintro ⟨r, hInside, r', hRest, hBack⟩
        exact ⟨r', ⟨r, hInside, hRest⟩, hBack⟩
      · rintro ⟨r', ⟨r, hInside, hRest⟩, hBack⟩
        exact ⟨r, hInside, r', hRest, hBack⟩
  | call _ _ _ inside rest _ ih =>
      simp only [call_append, Leads, ih, and_assoc, exists_and_left]

/-- **Grouping parentheses are seen through.** -/
theorem leads_ungroup {b : Bracketed} {p q : Phase} : b.ungroup.Leads p q ↔ b.Leads p q := by
  induction b generalizing p q with
  | nil => rfl
  | word t rest ih => simp only [ungroup, Leads, ih]
  | group _ _ inside rest ihInside ih => simp only [ungroup, Leads, leads_append, ihInside, ih]
  | call _ _ _ inside rest ihInside ih => simp only [ungroup, Leads, size_ungroup, ihInside, ih]

/-! ## A sequence for every skeleton -/

/-- The tokens belong to a sequence that leads from operand to operator. -/
private def Realized (inCall : Prop) (ts : List Token) : Prop :=
  ∃ b : Bracketed, b.Proper ∧ b.tokens = ts ∧ b.Leads .operand .operator ∧ b.CommasIn inCall

private theorem Realized.mono {inCall inCall' : Prop} {ts : List Token}
    (hRealized : Realized inCall ts) (h : inCall → inCall') : Realized inCall' ts := by
  obtain ⟨b, hProper, hTokens, hLeads, hCommas⟩ := hRealized
  exact ⟨b, hProper, hTokens, hLeads, hCommas.mono h⟩

private theorem realized_single {t : Token} (hOperand : t.IsOperand) (inCall : Prop) :
    Realized inCall [t] := by
  have hParen : t.isParen = false := by
    rcases hOperand with ⟨hKind, -⟩ | hKind <;> simp [Token.isParen_eq_false_iff, hKind]
  have hProper : (word t nil).Proper := ⟨hParen, fun _ => rfl, trivial⟩
  exact ⟨word t nil, hProper, rfl, .inl ⟨rfl, hOperand, rfl⟩,
    fun hComma => absurd hComma hOperand.kind_ne_comma, trivial⟩

private theorem realized_between {inCall : Prop} {ts us : List Token} {t : Token}
    (hFirst : Realized inCall ts) (hRest : Realized inCall us)
    (hBetween : t.IsSign ∨ (t.kind = .comma ∧ inCall)) : Realized inCall (ts ++ t :: us) := by
  obtain ⟨a, ha, rfl, hLeadsFirst, hCommasFirst⟩ := hFirst
  obtain ⟨b, hb, rfl, hLeads, hCommas⟩ := hRest
  have hParen : t.isParen = false := by
    rcases hBetween with ⟨hKind, -⟩ | ⟨hKind, -⟩ <;> simp [Token.isParen_eq_false_iff, hKind]
  -- what stands between two operands is no function's name
  have hNames : t.namesFunction = false := by
    rcases hBetween with ⟨hKind, -⟩ | ⟨hKind, -⟩ <;> simp [Token.namesFunction, hKind]
  refine ⟨a ++ word t b, ha.append ⟨hParen, by simp [hNames], hb⟩ rfl, by simp [tokens], ?_,
    hCommasFirst.append ⟨fun hComma => ?_, hCommas⟩⟩
  · exact leads_append.2 ⟨_, hLeadsFirst, .inr ⟨rfl, hBetween.imp_right And.left, hLeads⟩⟩
  · rcases hBetween with hSign | ⟨-, hCall⟩
    · exact absurd hComma hSign.kind_ne_comma
    · exact hCall

/-- A skeleton belongs to a sequence, in which only the arguments of a call have
commas. -/
private theorem realized_of_skeleton {part : Part} {ts : List Token}
    (hSkeleton : Skeleton part ts) : Realized (part = .arguments) ts := by
  induction hSkeleton with
  | single _ ih => exact ih.mono (by simp)
  | operation _ hSign _ ihOperand ih =>
      exact realized_between (ihOperand.mono (by simp)) ih (.inl hSign)
  | number hNumeral => exact realized_single (.inl hNumeral) _
  | name hKind => exact realized_single (.inr hKind) _
  | @emptyCall name opening closing hName hOpening hClosing =>
      exact ⟨call name opening closing nil nil, ⟨hName, hOpening, hClosing, trivial, trivial⟩, rfl,
        ⟨rfl, .inl rfl, rfl⟩, trivial, trivial⟩
  | @call name opening closing _ hName hOpening hClosing _ ih =>
      obtain ⟨b, hProper, rfl, hLeads, hCommas⟩ := ih
      exact ⟨call name opening closing b nil, ⟨hName, hOpening, hClosing, hProper, trivial⟩, rfl,
        ⟨rfl, .inr hLeads, rfl⟩, hCommas.mono fun _ => trivial, trivial⟩
  | last _ ih => exact ih.mono (by simp)
  | more _ hComma _ ihFirst ihMore =>
      exact realized_between (ihFirst.mono (by simp)) ihMore (.inr ⟨hComma, rfl⟩)

/-! ## A skeleton for every sequence -/

/-- The tokens are a chain or, where commas separate, a list of arguments. -/
private def Complete (inCall : Prop) (ts : List Token) : Prop :=
  Skeleton .chain ts ∨ (inCall ∧ Skeleton .arguments ts)

private theorem Complete.arguments {inCall : Prop} {ts : List Token}
    (hComplete : Complete inCall ts) : Skeleton .arguments ts := by
  rcases hComplete with hChain | ⟨-, hArguments⟩
  · exact .last hChain
  · exact hArguments

section

variable {inCall : Prop} {a ts : List Token} {t : Token} (hOperand : Skeleton .operand a)
include hOperand

private theorem Complete.operation (hSign : t.IsSign) (hComplete : Complete inCall ts) :
    Complete inCall (a ++ t :: ts) := by
  rcases hComplete with hChain | ⟨hCall, hArguments⟩
  · exact .inl (.operation hOperand hSign hChain)
  · refine .inr ⟨hCall, ?_⟩
    cases hArguments with
    | last hChain => exact .last (.operation hOperand hSign hChain)
    | more hChain hComma hMore =>
        rw [← List.cons_append, ← List.append_assoc]
        exact .more (.operation hOperand hSign hChain) hComma hMore

private theorem Complete.comma (hCall : inCall) (hComma : t.kind = .comma)
    (hComplete : Complete inCall ts) : Complete inCall (a ++ t :: ts) :=
  .inr ⟨hCall, .more (.single hOperand) hComma hComplete.arguments⟩

end

private theorem eq_nil_of_groupFree {b : Bracketed} (hFree : b.GroupFree) (hSize : b.size = 0) :
    b = nil := by
  cases b with
  | nil => rfl
  | word t rest => cases hSize
  | group opening closing inside rest => exact hFree.elim
  | call name opening closing inside rest => cases hSize

/-- What leads from an operand to an operator is complete, and what leads from
an operator to an operator is so behind any operand. -/
private theorem complete_of_leads {b : Bracketed} (hProper : b.Proper) (hFree : b.GroupFree)
    {inCall : Prop} (hCommas : b.CommasIn inCall) :
    (b.Leads .operand .operator → Complete inCall b.tokens) ∧
      (b.Leads .operator .operator →
        ∀ a : List Token, Skeleton .operand a → Complete inCall (a ++ b.tokens)) := by
  induction b generalizing inCall with
  | nil =>
      constructor
      · intro hLeads
        cases hLeads
      · intro _ a hOperand
        rw [tokens, List.append_nil]
        exact .inl (.single hOperand)
  | word t rest ih =>
      obtain ⟨-, -, hRest⟩ := hProper
      obtain ⟨ihOperand, ihOperator⟩ := ih hRest hFree hCommas.2
      constructor
      · rintro (⟨-, hToken, hLeads⟩ | ⟨hPhase, -⟩)
        · rcases hToken with hNumeral | hKind
          · exact ihOperator hLeads [t] (.number hNumeral)
          · exact ihOperator hLeads [t] (.name hKind)
        · cases hPhase
      · rintro (⟨hPhase, -⟩ | ⟨-, hToken, hLeads⟩) a hOperand
        · cases hPhase
        · rcases hToken with hSign | hComma
          · exact (ihOperand hLeads).operation hOperand hSign
          · exact (ihOperand hLeads).comma hOperand (hCommas.1 hComma) hComma
  | group opening closing inside rest => exact hFree.elim
  | call name opening closing inside rest ihInside ih =>
      obtain ⟨hName, hOpening, hClosing, hInside, hRest⟩ := hProper
      have hBehind := (ih hRest hFree.2 hCommas.2).2
      constructor
      · rintro ⟨-, hSize | hLeads, hLeadsRest⟩
        · obtain rfl := eq_nil_of_groupFree hFree.1 hSize
          exact hBehind hLeadsRest _ (.emptyCall hName hOpening hClosing)
        · have hArguments := ((ihInside hInside hFree.1 hCommas.1).1 hLeads).arguments
          have hCall := hBehind hLeadsRest _ (.call hName hOpening hClosing hArguments)
          simpa [tokens] using hCall
      · rintro ⟨hPhase, -⟩
        cases hPhase

/-! ## Skeletons of sequences -/

/-- **A skeleton that is a chain leads from operand to operator**, and the
other way round, if commas stand in calls only. -/
theorem skeleton_iff_leads {b : Bracketed} (hProper : b.Proper) (hCommas : b.CommasIn False) :
    Skeleton .chain b.ungroup.tokens ↔ b.Leads .operand .operator := by
  rw [← leads_ungroup]
  constructor
  · intro hSkeleton
    obtain ⟨b', hProper', hTokens, hLeads, -⟩ := realized_of_skeleton hSkeleton
    rwa [← eq_of_tokens_eq hProper' hProper.ungroup hTokens]
  · intro hLeads
    rcases (complete_of_leads hProper.ungroup (groupFree_ungroup b) hCommas.ungroup).1 hLeads with
      hChain | ⟨hNever, -⟩
    · exact hChain
    · exact hNever.elim

end Bracketed

end Fluxion
