import Fluxion.Proofs.Alternation
import Fluxion.Proofs.Bracketed
import Fluxion.Proofs.Nodes
import Fluxion.Proofs.Numeral

/-!
# Where the nodes come from

Reading makes nothing up. Every node of an expression that was read stands for
a token of its source: constants and variables for numbers and names,
operations for operators, and calls for names of functions, with whatever
number of arguments. How the items are taken apart does not matter for this,
only that every part is made of items of the whole.

## Main results

* `Expr.every_of_ofItems?` — what is read from items comes from their tokens.
* `Expr.every_of_parse` — what is read from a source comes from its tokens.
-/

namespace Fluxion

open Token

/-! ## Items of parts -/

namespace Item

/-- The item is one that tokens may have: its token is among them, and only
the name of a function is called. -/
structure From (ts : List Token) (item : Item) : Prop where
  mem : item.token ∈ ts
  called : item.reach.isSome → item.token.namesFunction

theorem From.mono {ts us : List Token} {item : Item} (hItem : item.From ts)
    (hSubset : ts ⊆ us) : item.From us :=
  ⟨hSubset hItem.mem, hItem.called⟩

/-- Only the name of a function is called, in front of a parenthesis. -/
theorem called_of_reachOf {t : Token} {following : List Token}
    (hReach : (reachOf t following).isSome) :
    t.namesFunction ∧ ∃ next ∈ following.head?, next.kind = .openParen := by
  unfold reachOf at hReach
  split at hReach
  · cases hReach
  · next next enclosed =>
      split at hReach
      · next hCall => exact ⟨by simp [namesFunction, hCall.1, hCall.2.1], next, rfl, hCall.2.2⟩
      · cases hReach

/-- **Every item is made from one of the tokens**, at the position that the
words in front of the token give it. -/
theorem exists_place {ts : List Token} {priorities : List Int} {i : Nat} {item : Item}
    (hItem : (ofTokens ts priorities)[i]? = some item) :
    ∃ front following, ts = front ++ item.token :: following ∧ item.token.isParen = false ∧
      (words front).length = i ∧ priorities[front.length]? = some item.priority ∧
      item.reach = reachOf item.token following := by
  induction ts generalizing priorities i with
  | nil => simp [ofTokens] at hItem
  | cons t ts ih =>
      cases priorities with
      | nil => simp [ofTokens] at hItem
      | cons priority priorities =>
          rw [ofTokens] at hItem
          split at hItem
          · next hParen =>
              obtain ⟨front, following, rfl, hWord, hPosition, hPriority, hReach⟩ := ih hItem
              exact ⟨t :: front, following, rfl, hWord, by rw [words_paren hParen, hPosition],
                hPriority, hReach⟩
          · next hParen =>
              have hParen : t.isParen = false := by simpa using hParen
              cases i with
              | zero =>
                  cases hItem
                  exact ⟨[], ts, rfl, hParen, rfl, rfl, rfl⟩
              | succ i =>
                  obtain ⟨front, following, rfl, hWord, hPosition, hPriority, hReach⟩ := ih hItem
                  exact ⟨t :: front, following, rfl, hWord,
                    by rw [words_word hParen, List.length_cons, hPosition], hPriority, hReach⟩

theorem from_of_mem_ofTokens {ts : List Token} {priorities : List Int} {item : Item}
    (hMem : item ∈ ofTokens ts priorities) : item.From ts := by
  obtain ⟨i, hItem⟩ := List.getElem?_of_mem hMem
  obtain ⟨front, following, rfl, -, -, -, hReach⟩ := exists_place hItem
  exact ⟨List.mem_append_right _ List.mem_cons_self,
    fun hCalled => (called_of_reachOf (hReach ▸ hCalled)).1⟩

section

variable {P : Argument → Prop}

private theorem forall_mem_consItem {item : Item} {cut : Arguments}
    (hItem : ∀ a, P a → P { a with items := item :: a.items })
    (hCut : ∀ a ∈ cut.arguments, P a) : ∀ a ∈ (cut.consItem item).arguments, P a := by
  unfold Arguments.consItem
  split
  · exact hCut
  · next first others hEq =>
      rw [hEq, List.forall_mem_cons] at hCut
      exact List.forall_mem_cons.2 ⟨hItem first hCut.1, hCut.2⟩

/-- What holds of every argument of a cut: it holds of an argument without
items, behind what all of them follow and behind a comma, and putting one of
the items in front keeps it. -/
theorem forall_mem_cutAt {separator : Int} {skip : Nat} {follows : Span} {items : List Item}
    (hFollows : P ⟨follows, []⟩)
    (hComma : ∀ item ∈ items, item.token.kind = .comma → P ⟨item.token.span, []⟩)
    (hItems : ∀ item ∈ items, ∀ a, P a → P { a with items := item :: a.items }) :
    ∀ a ∈ (Arguments.cutAt separator skip follows items).arguments, P a := by
  induction items generalizing skip follows with
  | nil => simpa [Arguments.cutAt] using hFollows
  | cons item rest ih =>
      rw [List.forall_mem_cons] at hComma hItems
      unfold Arguments.cutAt
      split
      · exact forall_mem_consItem hItems.1 (ih hFollows hComma.2 hItems.2)
      · split
        · next hKind =>
            split
            · exact List.forall_mem_cons.2 ⟨hFollows, ih (hComma.1 hKind) hComma.2 hItems.2⟩
            · simp
        · exact forall_mem_consItem hItems.1 (ih hFollows hComma.2 hItems.2)

end

/-- The items of arguments are items of the call. -/
theorem forall_mem_argumentsOf {P : Item → Prop} {name : Item} {items : List Item}
    (hItems : ∀ i ∈ items, P i) : ∀ a ∈ (argumentsOf name items).arguments, ∀ i ∈ a.items, P i := by
  unfold argumentsOf
  split
  · simp
  · refine forall_mem_cutAt (by simp) (by simp) fun item hMem a hArgument => ?_
    exact List.forall_mem_cons.2 ⟨hItems item hMem, hArgument⟩

end Item

/-! ## Nodes of what is read -/

/-- The node stands for one of the tokens. -/
def Node.From (ts : List Token) : Node → Prop
  | const value => ∃ t ∈ ts, Expr.ofToken? t = .ok (.const value)
  | var name => ∃ t ∈ ts, Expr.ofToken? t = .ok (.var name)
  | operation op => ∃ t ∈ ts, t.operator? = some op
  | call function _ => ∃ t ∈ ts, t.namesFunction ∧ t.text = function

/-- Only functions are called. -/
theorem Node.From.isSome_ofName? {ts : List Token} {function : String} {given : Nat}
    (hNode : (Node.call function given).From ts) : (Function.ofName? function).isSome := by
  obtain ⟨t, -, hNames, rfl⟩ := hNode
  rw [namesFunction, Bool.and_eq_true] at hNames
  exact hNames.2

namespace Expr

/-- The operand that a token stands for is a number or a name. -/
theorem ofToken?_cases {t : Token} {e : Expr} (hRead : ofToken? t = .ok e) :
    (∃ value, e = const value) ∨
      e = var t.text ∧ t.kind = .name ∧ constant? t.text = none := by
  unfold ofToken? at hRead
  split at hRead
  · split at hRead
    · cases hRead
      exact .inl ⟨_, rfl⟩
    · cases hRead
  · next hKind =>
      split at hRead
      · cases hRead
        exact .inl ⟨_, rfl⟩
      · next hNone =>
          cases hRead
          exact .inr ⟨rfl, hKind, hNone⟩
  · cases hRead
  · split at hRead <;> cases hRead
  · cases hRead
  · cases hRead

/-- A variable is a name that is no constant. -/
theorem of_ofToken?_var {t : Token} {name : String} (hRead : ofToken? t = .ok (var name)) :
    t.kind = .name ∧ t.text = name ∧ constant? name = none := by
  obtain ⟨value, hConst⟩ | ⟨hVar, hKind, hNone⟩ := ofToken?_cases hRead
  · cases hConst
  · cases hVar
    exact ⟨hKind, rfl, hNone⟩

private theorem every_of_ofToken? {ts : List Token} {t : Token} {e : Expr} (hMem : t ∈ ts)
    (hRead : ofToken? t = .ok e) : e.Every (Node.From ts) := by
  obtain ⟨value, rfl⟩ | ⟨rfl, -, -⟩ := ofToken?_cases hRead
  · exact (every_const value).2 ⟨t, hMem, hRead⟩
  · exact (every_var t.text).2 ⟨t, hMem, hRead⟩

/-- **What is read from items comes from their tokens.** -/
theorem every_of_ofItems? {ts : List Token} {items : List Item} {follows : Span} {e : Expr}
    (hItems : ∀ item ∈ items, item.From ts) (hRead : ofItems? follows items = .ok e) :
    e.Every (Node.From ts) := by
  refine Item.reading_induction
    (motive := fun items e => (∀ item ∈ items, item.From ts) → e.Every (Node.From ts))
    ?call ?operand ?operation hRead hItems
  case call =>
    intro first rest es hReach _ hArguments hItems
    obtain ⟨hFirst, hRest⟩ := List.forall_mem_cons.1 hItems
    rw [every_call]
    refine ⟨⟨first.token, hFirst.mem, hFirst.called (by rw [hReach]; rfl), rfl⟩, ?_⟩
    -- what the arguments are made of is there too
    have hParts := (List.forall₂_and_left _ _).2 ⟨Item.forall_mem_argumentsOf hRest, hArguments⟩
    intro e he
    obtain ⟨a, -, hFrom, hArgument⟩ := exists_of_mem_right hParts he
    exact hArgument hFrom
  case operand =>
    intro item e _ hRead hItems
    exact every_of_ofToken? (List.forall_mem_cons.1 hItems).1.mem hRead
  case operation =>
    intro items front pivot back op left right hParts hOp hLeft hRight hItems
    rw [hParts.eq] at hItems
    obtain ⟨hFront, hBehind⟩ := List.forall_mem_append.1 hItems
    obtain ⟨hPivot, hBack⟩ := List.forall_mem_cons.1 hBehind
    rw [every_binary]
    exact ⟨⟨pivot.token, hPivot.mem, hOp⟩, hLeft hFront, hRight hBack⟩

/-- **What is read from a source comes from its tokens.** -/
theorem every_of_parse {source : List Char} {e : Expr} (hRead : parse source = .ok e) :
    ∃ ts, Token.ofSource? source = .ok ts ∧ e.Every (Node.From ts) := by
  obtain ⟨items, hItems, hRead⟩ := bind_eq_ok_iff.1 hRead
  obtain ⟨ts, hTokens, hItems⟩ := bind_eq_ok_iff.1 hItems
  obtain ⟨priorities, -, hItems⟩ := bind_eq_ok_iff.1 hItems
  cases hItems
  exact ⟨ts, hTokens, every_of_ofItems? (fun _ => Item.from_of_mem_ofTokens) hRead⟩

/-! ## What can be read at all -/

end Expr

/-- A node that some source has: its constants are not below zero and may be
infinite, its variables have names made of letters that are no constants, and
its calls are calls of functions. -/
def Node.Readable : Node → Prop
  | const value => ∃ pattern ≤ Number.infinityPattern, value = Number.ofPattern false pattern
  | var name => name.toList ≠ [] ∧ (∀ c ∈ name.toList, c.isAlpha) ∧ constant? name = none
  | operation _ => True
  | call function _ => (Function.ofName? function).isSome

namespace Expr

private theorem pattern_le (d : Number.Decimal) : d.pattern ≤ Number.infinityPattern :=
  Nat.min_le_right _ _

private theorem exists_pattern_of_constant? {name : String} {value : Float}
    (hConstant : constant? name = some value) :
    ∃ pattern ≤ Number.infinityPattern, value = Number.ofPattern false pattern := by
  obtain ⟨-, rfl⟩ | ⟨-, rfl⟩ := constant?_eq_some_iff.1 hConstant
  · exact ⟨_, pattern_le _, Grammar.pi_eq⟩
  · exact ⟨_, pattern_le _, Grammar.euler_eq⟩

private theorem exists_pattern_of_ofToken? {t : Token} (hSpelled : t.Spelled) {value : Float}
    (hRead : ofToken? t = .ok (const value)) :
    ∃ pattern ≤ Number.infinityPattern, value = Number.ofPattern false pattern := by
  unfold ofToken? at hRead
  split at hRead
  · next hKind =>
      split at hRead
      · next hLiteral =>
          cases hRead
          have hNumber : ∀ c ∈ t.lexeme, Kind.ofChar? c = some .number := hKind ▸ hSpelled.ofKind
          rw [Number.literal?_eq hNumber, Option.map_eq_some_iff] at hLiteral
          obtain ⟨d, -, rfl⟩ := hLiteral
          exact ⟨d.pattern, pattern_le d, rfl⟩
      · cases hRead
  · split at hRead
    · next hConstant =>
        cases hRead
        exact exists_pattern_of_constant? hConstant
    · cases hRead
  · cases hRead
  · split at hRead <;> cases hRead
  · cases hRead
  · cases hRead

theorem readable_of_from {ts : List Token} (hSpelled : ∀ t ∈ ts, t.Spelled) {node : Node}
    (hNode : node.From ts) : node.Readable := by
  cases node with
  | const value =>
      obtain ⟨t, hMem, hRead⟩ := hNode
      exact exists_pattern_of_ofToken? (hSpelled t hMem) hRead
  | var name =>
      obtain ⟨t, hMem, hRead⟩ := hNode
      obtain ⟨hKind, rfl, hNone⟩ := of_ofToken?_var hRead
      have hLetters : ∀ c ∈ t.lexeme, c.isAlpha := fun c hc =>
        Kind.of_ofChar? (hKind ▸ (hSpelled t hMem).ofKind c hc)
      rw [Node.Readable, Token.text, String.toList_ofList]
      exact ⟨(hSpelled t hMem).nonempty, hLetters, hNone⟩
  | operation op => trivial
  | call function given => exact hNode.isSome_ofName?

/-- Every node of what is read is one that can be read. -/
theorem readable_of_parse {source : List Char} {e : Expr} (hRead : parse source = .ok e) :
    e.Every Node.Readable := by
  obtain ⟨ts, hTokens, hEvery⟩ := every_of_parse hRead
  exact hEvery.mono fun _ => readable_of_from (Token.spelled_of_mem hTokens)

/-- A variable of what is read is a name in the source, and no constant. -/
theorem of_mem_vars_of_parse {source : List Char} {e : Expr} {name : String}
    (hRead : parse source = .ok e) (hName : name ∈ e.vars) :
    constant? name = none ∧
      ∃ ts t, Token.ofSource? source = .ok ts ∧ t ∈ ts ∧ t.kind = .name ∧ t.text = name := by
  obtain ⟨ts, hTokens, hEvery⟩ := every_of_parse hRead
  obtain ⟨t, hMem, hVar⟩ := hEvery _ (mem_vars.1 hName)
  obtain ⟨hKind, hText, hNone⟩ := of_ofToken?_var hVar
  exact ⟨hNone, ts, t, hTokens, hMem, hKind, hText⟩

end Expr

end Fluxion
