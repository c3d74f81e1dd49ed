import Fluxion.Proofs.BracketedItems
import Fluxion.Proofs.Provenance
import Fluxion.Proofs.Tiling

/-!
# Refusals point at what they talk about

A source can be refused while it is cut into characters, while its parentheses
are counted, and at any depth while its items are taken apart. Wherever that
happens, the region of the refusal is handed over from a token: the operator,
the comma or the name that wants an expression, or the token that cannot
stand where it stands. That is what the stages hand to each other here. What
the region cuts out of the source is read off the token afterwards, once for
all stages.

Only two refusals are for no token: that of a character outside the alphabet,
of which no token is made, and that of a source with nothing but parentheses,
in which nothing wants an expression but the source itself.

## Main results

* `ParseError.foundIn_of_ofItems?` — items are refused for one of their tokens.
* `Expr.marks_of_parse` — what the region of a refusal cuts out of the source.
-/

namespace Fluxion

open Token Piece

/-! ## Refusals for a token -/

namespace Token

/-- The token wants an expression next to it: it is an operator, a comma, or
the name of a function in front of its parenthesis. -/
def WantsExpression (t : Token) (behind : List Token) : Prop :=
  t.operator?.isSome ∨ t.kind = .comma ∨
    (t.namesFunction ∧ ∃ next ∈ behind.head?, next.kind = .openParen)

end Token

namespace ParseError

/-- What a cause says of the token it is found at, which other tokens
follow. -/
def Cause.FoundAt (t : Token) (behind : List Token) : Cause → Prop
  | invalidCharacter _ => False
  | emptyExpression => t.WantsExpression behind
  | unclosedParenthesis true | nestingTooDeep _ => t.kind = .openParen
  | unclosedParenthesis false => t.kind = .closeParen
  | invalidNumber lexeme | invalidOperator lexeme | expectedOperator lexeme => t.text = lexeme
  | misplacedComma => t.kind = .comma

/-- The refusal is for one of the tokens, and points at it. -/
def FoundIn (ts : List Token) (err : ParseError) : Prop :=
  ∃ before t behind, ts = before ++ t :: behind ∧ err.span = t.span ∧ err.cause.FoundAt t behind

theorem FoundIn.behind {ts : List Token} {err : ParseError} (hFound : err.FoundIn ts) (t : Token) :
    err.FoundIn (t :: ts) := by
  obtain ⟨before, found, behind, rfl, hErr⟩ := hFound
  exact ⟨t :: before, found, behind, rfl, hErr⟩

theorem foundIn_head {t : Token} {ts : List Token} {cause : Cause} (hCause : cause.FoundAt t ts) :
    FoundIn (t :: ts) ⟨t.span, cause⟩ :=
  ⟨[], t, ts, rfl, rfl, hCause⟩

/-! ## Counting parentheses -/

/-- Counting is refused for one of the tokens, or for a parenthesis that was
open in front of them. -/
private theorem foundIn_or_opened {ts : List Token} {opened : List Span} {err : ParseError}
    (hRefused : prioritiesInside opened ts = .error err) :
    err.FoundIn ts ∨ (err.span ∈ opened ∧ err.cause = .unclosedParenthesis true) := by
  induction ts generalizing opened with
  | nil =>
      cases opened with
      | nil => cases hRefused
      | cons innermost outer =>
          cases hRefused
          exact .inr ⟨List.mem_cons_self, rfl⟩
  | cons t ts ih =>
      have hLater {opened : List Span} {p : Int}
          (hLater : (prioritiesInside opened ts >>= fun ps => .ok (p :: ps)) = .error err) :
          prioritiesInside opened ts = .error err := by
        rcases bind_eq_error_iff.1 hLater with hRest | ⟨ps, -, hOk⟩
        · exact hRest
        · cases hOk
      by_cases hOpening : t.kind = .openParen
      · rw [Bracketed.prioritiesInside_openParen hOpening] at hRefused
        split at hRefused
        · rcases ih (hLater hRefused) with hFound | ⟨hOpened, hCause⟩
          · exact .inl (hFound.behind t)
          · rcases List.mem_cons.1 hOpened with hHere | hOuter
            · refine .inl ⟨[], t, ts, rfl, hHere, ?_⟩
              rw [hCause]
              exact hOpening
            · exact .inr ⟨hOuter, hCause⟩
        · cases hRefused
          exact .inl (foundIn_head hOpening)
      · by_cases hClosing : t.kind = .closeParen
        · cases opened with
          | nil =>
              rw [Bracketed.prioritiesInside_closeParen_nil hClosing] at hRefused
              cases hRefused
              exact .inl (foundIn_head hClosing)
          | cons innermost outer =>
              rw [Bracketed.prioritiesInside_closeParen hClosing] at hRefused
              rcases ih (hLater hRefused) with hFound | ⟨hOpened, hCause⟩
              · exact .inl (hFound.behind t)
              · exact .inr ⟨List.mem_cons_of_mem _ hOpened, hCause⟩
        · have hParen : t.isParen = false := isParen_eq_false_iff.2 ⟨hOpening, hClosing⟩
          rw [Bracketed.prioritiesInside_word hParen] at hRefused
          rcases ih (hLater hRefused) with hFound | hOpened
          · exact .inl (hFound.behind t)
          · exact .inr hOpened

/-- Priorities are refused for one of the tokens. -/
theorem foundIn_of_priorities {ts : List Token} {err : ParseError}
    (hRefused : Token.priorities ts = .error err) : err.FoundIn ts := by
  rcases foundIn_or_opened hRefused with hFound | ⟨hOpened, -⟩
  · exact hFound
  · cases hOpened

end ParseError

/-! ## Items and the tokens they stand for -/

namespace Item

/-- The token of the item is one of the tokens and no parenthesis; if the item
is called, it is the name of a function in front of a parenthesis. -/
def StandsIn (ts : List Token) (item : Item) : Prop :=
  ∃ before behind, ts = before ++ item.token :: behind ∧ item.token.isParen = false ∧
    (item.reach.isSome →
      item.token.namesFunction ∧ ∃ next ∈ behind.head?, next.kind = .openParen)

theorem standsIn_of_mem_ofTokens {ts : List Token} {priorities : List Int} {item : Item}
    (hMem : item ∈ ofTokens ts priorities) : item.StandsIn ts := by
  obtain ⟨i, hItem⟩ := List.getElem?_of_mem hMem
  obtain ⟨front, following, rfl, hParen, -, -, hReach⟩ := exists_place hItem
  exact ⟨front, following, rfl, hParen, fun hCalled => called_of_reachOf (hReach ▸ hCalled)⟩

section

open ParseError

variable {ts : List Token} {item : Item} (hItem : item.StandsIn ts)
include hItem

/-- A cause that does not depend on what follows is found at the item. -/
theorem StandsIn.foundIn {cause : Cause} (hCause : ∀ behind, cause.FoundAt item.token behind) :
    FoundIn ts ⟨item.token.span, cause⟩ := by
  obtain ⟨before, behind, rfl, -⟩ := hItem
  exact ⟨before, item.token, behind, rfl, rfl, hCause behind⟩

/-- A call wants an expression. -/
theorem StandsIn.foundIn_of_called (hCalled : item.reach.isSome) :
    FoundIn ts ⟨item.token.span, .emptyExpression⟩ := by
  obtain ⟨before, behind, rfl, -, hNames⟩ := hItem
  exact ⟨before, item.token, behind, rfl, rfl, .inr (.inr (hNames hCalled))⟩

/-- An item that is no operand is refused for its token. -/
theorem StandsIn.foundIn_of_ofToken? {err : ParseError}
    (hRefused : Expr.ofToken? item.token = .error err) : err.FoundIn ts := by
  have hParen : item.token.isParen = false := by
    obtain ⟨_, _, _, hParen, -⟩ := hItem
    exact hParen
  unfold Expr.ofToken? at hRefused
  split at hRefused
  · split at hRefused
    · cases hRefused
    · cases hRefused
      exact hItem.foundIn fun _ => rfl
  · split at hRefused <;> cases hRefused
  · next hKind =>
      cases hRefused
      exact hItem.foundIn fun _ => hKind
  · split at hRefused
    · next hOp =>
        cases hRefused
        exact hItem.foundIn fun _ => .inl hOp
    · cases hRefused
      exact hItem.foundIn fun _ => rfl
  · next hKind => exact absurd hKind (isParen_eq_false_iff.1 hParen).1
  · next hKind => exact absurd hKind (isParen_eq_false_iff.1 hParen).2

/-- An item that cannot stand on the top level is refused for its token. -/
theorem StandsIn.foundIn_of_checkStanding {err : ParseError}
    (hRefused : item.checkStanding = .error err) : err.FoundIn ts := by
  unfold checkStanding at hRefused
  split at hRefused
  · next hKind =>
      cases hRefused
      exact hItem.foundIn fun _ => hKind
  · split at hRefused
    · cases hRefused
    · cases hRefused
      exact hItem.foundIn fun _ => rfl
  · cases hRefused
  · cases hRefused
  · cases hRefused
  · cases hRefused

end

/-! ## What arguments follow -/

namespace Arguments

private theorem misplaced_consItem (item : Item) (cut : Arguments) :
    (cut.consItem item).misplaced = cut.misplaced := by
  unfold consItem
  split <;> rfl

/-- What is misplaced is a comma. -/
private theorem misplaced_cutAt {separator : Int} {skip : Nat} {follows comma : Span}
    {items : List Item} (hComma : (cutAt separator skip follows items).misplaced = some comma) :
    ∃ item ∈ items, item.token.kind = .comma ∧ item.token.span = comma := by
  induction items generalizing skip follows with
  | nil => cases hComma
  | cons item rest ih =>
      have hLater {skip : Nat} {follows : Span}
          (hLater : (cutAt separator skip follows rest).misplaced = some comma) :
          ∃ i ∈ item :: rest, i.token.kind = .comma ∧ i.token.span = comma := by
        obtain ⟨i, hMem, hItem⟩ := ih hLater
        exact ⟨i, List.mem_cons_of_mem _ hMem, hItem⟩
      unfold cutAt at hComma
      split at hComma
      · rw [misplaced_consItem] at hComma
        exact hLater hComma
      · split at hComma
        · next hKind =>
            split at hComma
            · exact hLater hComma
            · cases hComma
              exact ⟨item, List.mem_cons_self, hKind, rfl⟩
        · rw [misplaced_consItem] at hComma
          exact hLater hComma

end Arguments

section

open ParseError

variable {ts : List Token} {name : Item} {items : List Item}
  (hItems : ∀ item ∈ items, item.StandsIn ts)
include hItems

/-- What an argument follows wants an expression. -/
theorem foundIn_of_mem_argumentsOf (hName : name.StandsIn ts) (hCalled : name.reach.isSome) :
    ∀ a ∈ (argumentsOf name items).arguments, FoundIn ts ⟨a.follows, .emptyExpression⟩ := by
  unfold argumentsOf
  split
  · simp
  · refine forall_mem_cutAt (hName.foundIn_of_called hCalled) ?_ fun _ _ _ hArgument => hArgument
    intro item hMem hKind
    exact (hItems item hMem).foundIn fun _ => .inr (.inl hKind)

theorem foundIn_of_misplaced {comma : Span}
    (hComma : (argumentsOf name items).misplaced = some comma) :
    FoundIn ts ⟨comma, .misplacedComma⟩ := by
  unfold argumentsOf at hComma
  split at hComma
  · cases hComma
  · obtain ⟨item, hMem, hKind, rfl⟩ := Arguments.misplaced_cutAt hComma
    exact (hItems item hMem).foundIn fun _ => hKind

/-- The top level is refused for one of its items. -/
theorem foundIn_of_checkTopLevel {err : ParseError} (hRefused : checkTopLevel items = .error err) :
    err.FoundIn ts := by
  obtain ⟨⟨position, item⟩, hMem, hStanding⟩ := exists_of_forM_eq_error hRefused
  have hItem : item ∈ items := List.mem_of_getElem? (getElem?_of_mem_topLevel hMem)
  exact (hItems item hItem).foundIn_of_checkStanding hStanding

end

end Item

/-! ## Taking items apart -/

namespace ParseError

/-- An operation is refused on its top level, at its weakest item, or in one of
the parts on both sides of an operator. -/
private theorem exists_of_refused_operation {follows : Span} {first : Item} {rest : List Item}
    {err : ParseError} (hReach : first.reach ≠ some rest.length) (hRest : rest ≠ [])
    (hRefused : Expr.ofItems? follows (first :: rest) = .error err) :
    Item.checkTopLevel (first :: rest) = .error err ∨ ∃ pivot ∈ first :: rest,
      err = ⟨pivot.token.span, .expectedOperator pivot.token.text⟩ ∨
      (pivot.token.operator?.isSome ∧ ∃ side ⊆ first :: rest,
        side.length < (first :: rest).length ∧
          Expr.ofItems? pivot.token.span side = .error err) := by
  obtain ⟨front, pivot, back, ⟨hEq, -, -, -⟩, -, hTaken⟩ :=
    Item.exists_of_weakest hReach hRest follows
  rw [hTaken] at hRefused
  rcases bind_eq_error_iff.1 hRefused with hTop | ⟨_, -, hRefused⟩
  · exact .inl hTop
  · rw [hEq]
    refine .inr ⟨pivot, by simp, ?_⟩
    have hShort : front.length < (front ++ pivot :: back).length ∧
        back.length < (front ++ pivot :: back).length := by
      rw [List.length_append, List.length_cons]
      omega
    split at hRefused
    · cases hRefused
      exact .inl rfl
    · next op hOp =>
        refine .inr ⟨by rw [hOp]; rfl, ?_⟩
        rcases bind_eq_error_iff.1 hRefused with hLeft | ⟨left, -, hRefused⟩
        · exact ⟨front, by simp, hShort.1, hLeft⟩
        · rcases bind_eq_error_iff.1 hRefused with hRight | ⟨right, -, hOk⟩
          · refine ⟨back, fun item hItem => ?_, hShort.2, hRight⟩
            exact List.mem_append_right front (List.mem_cons_of_mem pivot hItem)
          · cases hOk

/-- **Items are refused for one of their tokens.** If there are none, it is for
the one that they follow. -/
theorem foundIn_of_ofItems? {ts : List Token} {items : List Item} {follows : Span}
    {err : ParseError} (hItems : ∀ item ∈ items, item.StandsIn ts)
    (hFollows : items = [] → FoundIn ts ⟨follows, .emptyExpression⟩)
    (hRefused : Expr.ofItems? follows items = .error err) : err.FoundIn ts := by
  induction hLength : items.length using Nat.strongRecOn generalizing items follows with
  | _ length ih =>
  subst hLength
  cases items with
  | nil =>
      rw [Expr.ofItems?_nil] at hRefused
      cases hRefused
      exact hFollows rfl
  | cons first rest =>
      obtain ⟨hFirst, hRest⟩ := List.forall_mem_cons.1 hItems
      by_cases hReach : first.reach = some rest.length
      · -- one of the arguments is refused, or a comma behind those that are read
        have hCalled : first.reach.isSome := by
          rw [hReach]
          rfl
        rw [Expr.ofItems?_call follows hReach] at hRefused
        rcases bind_eq_error_iff.1 hRefused with hArguments | ⟨es, -, hComma⟩
        · obtain ⟨a, hMem, hArgument⟩ := exists_of_mapM_eq_error hArguments
          exact ih a.items.length (Nat.lt_succ_of_le (Item.length_le_of_mem_argumentsOf hMem))
            (Item.forall_mem_argumentsOf hRest a hMem)
            (fun _ => Item.foundIn_of_mem_argumentsOf hRest hFirst hCalled a hMem) hArgument rfl
        · split at hComma
          · next comma hMisplaced =>
              cases hComma
              exact Item.foundIn_of_misplaced hRest hMisplaced
          · cases hComma
      · by_cases hSingle : rest = []
        · subst hSingle
          rw [Expr.ofItems?_operand follows (by simpa using hReach)] at hRefused
          exact hFirst.foundIn_of_ofToken? hRefused
        · rcases exists_of_refused_operation hReach hSingle hRefused with
            hTop | ⟨pivot, hMem, rfl | ⟨hOp, side, hSubset, hShort, hSide⟩⟩
          · exact Item.foundIn_of_checkTopLevel hItems hTop
          · exact (hItems pivot hMem).foundIn fun _ => rfl
          · exact ih _ hShort (fun item hItem => hItems item (hSubset hItem))
              (fun _ => (hItems pivot hMem).foundIn fun _ => .inl hOp) hSide rfl

end ParseError

/-! ## What a region cuts out -/

/-- The source has no tokens but parentheses. -/
def OnlyParens (source : List Char) : Prop :=
  ∀ c ∈ source, c = '(' ∨ c = ')'

/-- What a refusal for the given cause points at: the text it cuts out of the
source, with what follows. Where an expression is missing, that is what wants
one, or, in a source of nothing but parentheses, nothing at its end. -/
def ParseError.Cause.Concerns (source text rest : List Char) : Cause → Prop
  | invalidCharacter character => text = [character]
  | invalidNumber lexeme | invalidOperator lexeme | expectedOperator lexeme =>
    text = lexeme.toList
  | misplacedComma => text = [',']
  | nestingTooDeep _ | unclosedParenthesis true => text = ['(']
  | unclosedParenthesis false => text = [')']
  | emptyExpression =>
    (OnlyParens source ∧ text = [] ∧ rest = []) ∨
      (¬ OnlyParens source ∧
        ((∃ op : Operator, text = [op.symbol]) ∨ text = [','] ∨
          ∃ (f : Function) (behind : List Char), text = f.name.toList ∧ rest = '(' :: behind))

section

variable {source : List Char} {ts : List Token} (hTokens : Token.ofSource? source = .ok ts)
include hTokens

private theorem not_onlyParens {t : Token} (hMem : t ∈ ts) (hParen : t.isParen = false) :
    ¬ OnlyParens source := by
  intro hOnly
  have hSpelled := spelled_of_mem hTokens t hMem
  obtain ⟨c, rest, hLexeme⟩ := List.exists_cons_of_ne_nil hSpelled.nonempty
  have hLetter : c ∈ t.lexeme := by simp [hLexeme]
  have hSource : c ∈ source := by
    rw [← flatMap_lexeme hTokens, List.mem_flatMap]
    exact ⟨t, hMem, hLetter⟩
  obtain ⟨hOpening, hClosing⟩ := Bracketed.noParen_lexeme hSpelled hParen c hLetter
  rcases hOnly c hSource with hc | hc
  · exact hOpening hc
  · exact hClosing hc

/-- The characters of a token that wants an expression. -/
private theorem concerns_of_wantsExpression {before behind : List Token} {t : Token}
    (hEq : ts = before ++ t :: behind) (hWants : t.WantsExpression behind) :
    (ParseError.Cause.emptyExpression).Concerns source t.lexeme (behind.flatMap lexeme) := by
  have hSpelled := spelled_of_mem hTokens
  have hMem : t ∈ ts := by simp [hEq]
  rcases hWants with hOp | hComma | ⟨hNames, next, hNext, hKind⟩
  · obtain ⟨op, hOp⟩ := Option.isSome_iff_exists.1 hOp
    have hParen : t.isParen = false := by simp [isParen_eq_false_iff, kind_of_operator? hOp]
    exact .inr ⟨not_onlyParens hTokens hMem hParen, .inl ⟨op, lexeme_of_operator? hOp⟩⟩
  · have hParen : t.isParen = false := by simp [isParen_eq_false_iff, hComma]
    have hLexeme := Bracketed.lexeme_comma (hSpelled t hMem) hComma
    exact .inr ⟨not_onlyParens hTokens hMem hParen, .inr (.inl hLexeme)⟩
  · have hParen := Bracketed.isParen_of_namesFunction hNames
    rw [namesFunction, Bool.and_eq_true] at hNames
    obtain ⟨f, hFunction⟩ := Option.isSome_iff_exists.1 hNames.2
    have hName : t.lexeme = f.name.toList := by
      rw [Function.name_of_ofName? hFunction, Token.text, String.toList_ofList]
    cases behind with
    | nil => cases hNext
    | cons first behind =>
        obtain rfl : first = next := Option.some.inj hNext
        have hOpening := Bracketed.lexeme_openParen (hSpelled first (by simp [hEq])) hKind
        refine .inr ⟨not_onlyParens hTokens hMem hParen,
          .inr (.inr ⟨f, behind.flatMap lexeme, hName, ?_⟩)⟩
        rw [List.flatMap_cons, hOpening, List.singleton_append]

/-- The characters of a token say what a cause found at it says. -/
private theorem concerns_of_foundAt {before behind : List Token} {t : Token}
    {cause : ParseError.Cause} (hEq : ts = before ++ t :: behind)
    (hFound : cause.FoundAt t behind) :
    cause.Concerns source t.lexeme (behind.flatMap lexeme) := by
  have hSpelled := spelled_of_mem hTokens t (by simp [hEq])
  have hText {lexeme : String} (hText : t.text = lexeme) : t.lexeme = lexeme.toList := by
    rw [← hText, Token.text, String.toList_ofList]
  cases cause with
  | invalidCharacter character => exact hFound.elim
  | emptyExpression => exact concerns_of_wantsExpression hTokens hEq hFound
  | unclosedParenthesis opening =>
      cases opening with
      | true => exact Bracketed.lexeme_openParen hSpelled hFound
      | false => exact Bracketed.lexeme_closeParen hSpelled hFound
  | nestingTooDeep limit => exact Bracketed.lexeme_openParen hSpelled hFound
  | invalidNumber lexeme => exact hText hFound
  | invalidOperator lexeme => exact hText hFound
  | expectedOperator lexeme => exact hText hFound
  | misplacedComma => exact Bracketed.lexeme_comma hSpelled hFound

/-- A refusal for a token points at its characters, and there are some. -/
private theorem exists_marks_of_foundIn {err : ParseError} (hFound : err.FoundIn ts) :
    ∃ text rest, err.span.Marks source text rest ∧ err.cause.Concerns source text rest ∧
      err.span.start < err.span.stop := by
  obtain ⟨before, t, behind, hEq, hSpan, hCause⟩ := hFound
  have hMarks : err.span.Marks source t.lexeme (behind.flatMap lexeme) := by
    rw [hSpan]
    exact marks_of_append (hEq ▸ hTokens)
  have hSome := (spelled_of_mem hTokens t (by simp [hEq])).nonempty
  exact ⟨_, _, hMarks, concerns_of_foundAt hTokens hEq hCause, hMarks.start_lt_stop hSome⟩

end

/-- A source whose tokens make no items has no tokens but parentheses. -/
private theorem onlyParens_of_itemsOf? {source : List Char}
    (hItems : Expr.itemsOf? source = .ok []) :
    OnlyParens source := by
  obtain ⟨b, hProper, hTokens, -, hNil⟩ := Bracketed.exists_of_itemsOf? hItems
  have hSize : b.size = 0 := by rw [← Bracketed.length_items 0 b, ← hNil, List.length_nil]
  have hSpelled := spelled_of_mem hTokens
  intro c hc
  rw [← flatMap_lexeme hTokens, List.mem_flatMap] at hc
  obtain ⟨t, hMem, hc⟩ := hc
  rcases isParen_iff.1 (Bracketed.isParen_of_size_eq_zero hProper hSize t hMem) with hKind | hKind
  · rw [Bracketed.lexeme_openParen (hSpelled t hMem) hKind] at hc
    exact .inl (List.mem_singleton.1 hc)
  · rw [Bracketed.lexeme_closeParen (hSpelled t hMem) hKind] at hc
    exact .inr (List.mem_singleton.1 hc)

namespace Expr

/-- A refusal is for a stray character, for a token, or for a source that has
nothing but parentheses. -/
private theorem stray_or_foundIn {source : List Char} {err : ParseError}
    (hRefused : parse source = .error err) :
    Stray 0 source err ∨ (∃ ts, Token.ofSource? source = .ok ts ∧ err.FoundIn ts) ∨
      (OnlyParens source ∧ err = ⟨endOf source, .emptyExpression⟩) := by
  rcases bind_eq_error_iff.1 hRefused with hRefused | ⟨items, hItems, hRefused⟩
  · rcases bind_eq_error_iff.1 hRefused with hTokens | ⟨ts, hTokens, hRefused⟩
    · exact .inl (stray_of_ofSource? hTokens)
    · rcases bind_eq_error_iff.1 hRefused with hPriorities | ⟨ps, -, hOk⟩
      · exact .inr (.inl ⟨ts, hTokens, ParseError.foundIn_of_priorities hPriorities⟩)
      · cases hOk
  · by_cases hNil : items = []
    · subst hNil
      rw [ofItems?_nil] at hRefused
      cases hRefused
      exact .inr (.inr ⟨onlyParens_of_itemsOf? hItems, rfl⟩)
    · obtain ⟨ts, hTokens, hItems⟩ := bind_eq_ok_iff.1 hItems
      obtain ⟨ps, -, hItems⟩ := bind_eq_ok_iff.1 hItems
      cases hItems
      exact .inr (.inl ⟨ts, hTokens, ParseError.foundIn_of_ofItems?
        (fun _ => Item.standsIn_of_mem_ofTokens) (fun hEq => absurd hEq hNil) hRefused⟩)

/-- **A refusal points at the text it talks about.** Its region lies in the
source, between characters, and is empty only if the source has nothing but
parentheses. -/
theorem marks_of_parse {source : List Char} {err : ParseError}
    (hRefused : parse source = .error err) :
    (∃ text rest, err.span.Marks source text rest ∧ err.cause.Concerns source text rest) ∧
      (err.span.start = err.span.stop → err.cause = .emptyExpression ∧ OnlyParens source) := by
  rcases stray_or_foundIn hRefused with hStray | ⟨ts, hTokens, hFound⟩ | ⟨hOnly, rfl⟩
  · obtain ⟨front, c, back, rfl, -, -, rfl⟩ := hStray
    refine ⟨⟨[c], back, ⟨front, rfl, by simp⟩, rfl⟩, ?_⟩
    have := c.utf8Size_pos
    intro hEmpty
    dsimp only at hEmpty
    omega
  · obtain ⟨text, rest, hMarks, hConcerns, hLt⟩ := exists_marks_of_foundIn hTokens hFound
    exact ⟨⟨text, rest, hMarks, hConcerns⟩, fun hEmpty => absurd hLt (by omega)⟩
  · exact ⟨⟨[], [], ⟨source, by simp, rfl⟩, .inl ⟨hOnly, rfl, rfl⟩⟩, fun _ => ⟨rfl, hOnly⟩⟩

private theorem parse_trailingComma :
    parse "log(x^y,)".toList = .error ⟨⟨7, 8⟩, .emptyExpression⟩ := by
  cbv

/-- A comma with nothing behind it. -/
theorem marks_of_parse_trailingComma :
    let source := "log(x^y,)".toList
    parse source = .error ⟨⟨7, 8⟩, .emptyExpression⟩ ∧
      ∃ text rest, Span.Marks ⟨7, 8⟩ source text rest ∧
        ParseError.Cause.Concerns source text rest .emptyExpression :=
  ⟨parse_trailingComma, (marks_of_parse parse_trailingComma).1⟩

end Expr

end Fluxion
