import Fluxion.Expr.Parse
import Fluxion.Proofs.Bracketed
import Fluxion.Proofs.MaximalMunch
import Fluxion.Proofs.Outcome

/-!
# Items in another place

Where items stand, and how deep, is known to the reader only by comparison. The
regions of the tokens are looked at when something is refused, and priorities
are compared with each other and with nothing else. So a list of items that is
moved as a whole, its regions anywhere and its priorities all by the same
amount, is taken apart in the same places, and stands for the same expression or
is refused for the same cause, at the place where the region has been moved to.

## Main results

* `Item.weakest_move`, `Item.argumentsOf_move` — a list is taken apart where it
  was.
* `Expr.ofItems?_move`, `Expr.ofItems?_raise` — reading items commutes with
  moving them, and raising all priorities changes nothing.
* `Token.from?_shift`, `Bracketed.items_move` — the tokens of a text further
  back in a source are those of the text alone, and their items deeper inside
  of parentheses those outside of them, moved.
-/

namespace Fluxion

/-! ## Errors under a change of errors -/

section

variable {ε ε' α β γ : Type} {change : ε → ε'}

theorem mapError_bind (first : Except ε α) (next : α → Except ε β) :
    (first >>= next).mapError change =
      first.mapError change >>= fun a => (next a).mapError change := by
  cases first <;> rfl

theorem mapM_mapError {as : List α} {move : α → β} {step : α → Except ε γ} {step' : β → Except ε' γ}
    (hStep : ∀ a ∈ as, step' (move a) = (step a).mapError change) :
    (as.map move).mapM step' = (as.mapM step).mapError change := by
  induction as with
  | nil => rfl
  | cons a as ih =>
      rw [List.forall_mem_cons] at hStep
      rw [List.map_cons, List.mapM_cons, List.mapM_cons, hStep.1, ih hStep.2, mapError_bind]
      cases step a with
      | error e => rfl
      | ok c => cases as.mapM step <;> rfl

end

/-! ## Moving -/

variable (amount : Int) (place : Span → Span)

/-- The same token in another place. -/
def Token.move (t : Token) : Token :=
  { t with span := place t.span }

/-- The same item in another place, with another priority. -/
def Item.move (item : Item) : Item :=
  { item with token := item.token.move place, priority := item.priority + amount }

/-- The same item with another priority. -/
def Item.raise (item : Item) : Item :=
  { item with priority := item.priority + amount }

/-- The same argument in another place, with other priorities. -/
def Item.Argument.move (argument : Argument) : Argument :=
  ⟨place argument.follows, argument.items.map (Item.move amount place)⟩

/-- The same cut of items in another place, with other priorities. -/
def Item.Arguments.move (cut : Arguments) : Arguments :=
  ⟨cut.arguments.map (Argument.move amount place), cut.misplaced.map place⟩

/-- The same refusal in another place. -/
def ParseError.move (err : ParseError) : ParseError :=
  { err with span := place err.span }

namespace Token

@[simp] theorem move_kind (t : Token) : (t.move place).kind = t.kind := rfl

@[simp] theorem move_lexeme (t : Token) : (t.move place).lexeme = t.lexeme := rfl

@[simp] theorem move_text (t : Token) : (t.move place).text = t.text := rfl

@[simp] theorem move_span (t : Token) : (t.move place).span = place t.span := rfl

@[simp] theorem move_operator? (t : Token) : (t.move place).operator? = t.operator? := rfl

end Token

namespace Item

@[simp] theorem move_token (item : Item) : (item.move amount place).token = item.token.move place :=
  rfl

@[simp] theorem move_priority (item : Item) :
    (item.move amount place).priority = item.priority + amount := rfl

@[simp] theorem move_reach (item : Item) : (item.move amount place).reach = item.reach := rfl

@[simp] theorem move_covered (item : Item) : (item.move amount place).covered = item.covered := rfl

/-! ## Taking a list apart -/

theorem checkStanding_move (item : Item) :
    (item.move amount place).checkStanding =
      item.checkStanding.mapError (ParseError.move place) := by
  unfold checkStanding
  rw [move_token, Token.move_kind, Token.move_operator?]
  cases item.token.kind with
  | operator => cases item.token.operator? <;> rfl
  | number | name | openParen | closeParen | comma => rfl

theorem topLevelFrom_move (skip position : Nat) (items : List Item) :
    topLevelFrom skip position (items.map (move amount place)) =
      (topLevelFrom skip position items).map (Prod.map id (move amount place)) := by
  induction items generalizing skip position with
  | nil => rfl
  | cons item rest ih =>
      cases skip with
      | zero => simp [topLevelFrom, ih]
      | succ skip => simp [topLevelFrom, ih]

theorem checkTopLevel_move (items : List Item) :
    checkTopLevel (items.map (move amount place)) =
      (checkTopLevel items).mapError (ParseError.move place) := by
  rw [checkTopLevel, checkTopLevel, topLevel, topLevel, topLevelFrom_move]
  induction topLevelFrom 0 0 items with
  | nil => rfl
  | cons placed rest ih =>
      obtain ⟨position, item⟩ := placed
      show ((item.move amount place).checkStanding >>= fun _ =>
        (rest.map (Prod.map id (move amount place))).forM _) = _
      rw [checkStanding_move, ih, ← mapError_bind]
      rfl

/-- Priorities are compared with each other only. -/
theorem weakerThan_move (later earlier : Item) :
    (later.move amount place).weakerThan (earlier.move amount place) =
      later.weakerThan earlier := by
  simp only [weakerThan, move_priority, move_token, Token.move_operator?, add_left_inj,
    Int.add_lt_add_iff_right]

/-- **The weakest item is where it was.** -/
theorem weakest_move (first : Item) (rest : List Item) :
    weakest (first.move amount place) (rest.map (move amount place)) =
      ((weakest first rest).1, (weakest first rest).2.move amount place) := by
  have hFold : ∀ (start : Nat × Item) (placed : List (Nat × Item)),
      (placed.map (Prod.map id (move amount place))).foldl weaker
          (Prod.map id (move amount place) start) =
        Prod.map id (move amount place) (placed.foldl weaker start) := by
    intro start placed
    induction placed generalizing start with
    | nil => rfl
    | cons next placed ih =>
        have hNext : weaker (Prod.map id (move amount place) start)
            (Prod.map id (move amount place) next) =
              Prod.map id (move amount place) (weaker start next) := by
          simp only [weaker, Prod.map_snd, weakerThan_move]
          split <;> rfl
        rw [List.map_cons, List.foldl_cons, hNext, ih, List.foldl_cons]
  rw [weakest, weakest, move_covered, topLevelFrom_move]
  exact hFold (0, first) _

/-! ## Cutting at commas -/

namespace Arguments

theorem move_consItem (item : Item) (cut : Arguments) :
    (cut.move amount place).consItem (item.move amount place) =
      (cut.consItem item).move amount place := by
  obtain ⟨arguments, misplaced⟩ := cut
  cases arguments <;> rfl

theorem move_consArgument (argument : Argument) (cut : Arguments) :
    (cut.move amount place).consArgument (argument.move amount place) =
      (cut.consArgument argument).move amount place := rfl

theorem cutAt_move (separator : Int) (skip : Nat) (follows : Span) (items : List Item) :
    cutAt (separator + amount) skip (place follows) (items.map (Item.move amount place)) =
      (cutAt separator skip follows items).move amount place := by
  induction items generalizing skip follows with
  | nil => rfl
  | cons item rest ih =>
      rw [List.map_cons]
      cases skip with
      | succ skip => rw [cutAt, cutAt, ih, move_consItem]
      | zero =>
          simp only [cutAt, move_token, Token.move_kind, Token.move_span, move_priority,
            move_covered, add_left_inj, ih]
          split
          · split
            · exact move_consArgument amount place ⟨follows, []⟩ _
            · rfl
          · exact move_consItem amount place item _

end Arguments

/-- **The commas of a call are where they were.** -/
theorem argumentsOf_move (name : Item) (items : List Item) :
    argumentsOf (name.move amount place) (items.map (move amount place)) =
      (argumentsOf name items).move amount place := by
  have hSeparator : (name.move amount place).priority + Token.nestingStep =
      name.priority + Token.nestingStep + amount := by
    rw [move_priority]
    omega
  rw [argumentsOf, argumentsOf, List.isEmpty_map, hSeparator]
  split
  · rfl
  · exact Arguments.cutAt_move amount place _ 0 name.token.span items

end Item

/-! ## Reading -/

namespace Expr

theorem ofToken?_move (t : Token) :
    ofToken? (t.move place) = (ofToken? t).mapError (ParseError.move place) := by
  unfold ofToken?
  rw [Token.move_kind, Token.move_lexeme, Token.move_text, Token.move_operator?]
  cases t.kind with
  | number => cases Number.literal? t.lexeme <;> rfl
  | name => cases constant? t.text <;> rfl
  | operator => cases t.operator? <;> rfl
  | openParen | closeParen | comma => rfl

/-- Reading the items, placed behind the region, commutes with moving them. -/
private def Moves (follows : Span) (items : List Item) : Prop :=
  ofItems? (place follows) (items.map (Item.move amount place)) =
    (ofItems? follows items).mapError (ParseError.move place)

section

variable {amount : Int} {place : Span → Span} {first : Item} {rest : List Item}

/-- A call is moved with its arguments. -/
private theorem moves_call (hReach : first.reach = some rest.length)
    (hArguments : ∀ a ∈ (Item.argumentsOf first rest).arguments,
      Moves amount place a.follows a.items)
    (follows : Span) : Moves amount place follows (first :: rest) := by
  have hReach' : (first.move amount place).reach =
      some (rest.map (Item.move amount place)).length := by
    rw [Item.move_reach, hReach, List.length_map]
  have hRead : ((Item.argumentsOf first rest).move amount place).arguments.mapM
        (fun a => ofItems? a.follows a.items) =
      ((Item.argumentsOf first rest).arguments.mapM fun a =>
        ofItems? a.follows a.items).mapError (ParseError.move place) :=
    mapM_mapError hArguments
  rw [Moves, List.map_cons, ofItems?_call _ hReach', ofItems?_call _ hReach,
    Item.argumentsOf_move, hRead, mapError_bind]
  congr 1
  funext arguments
  simp only [Item.Arguments.move]
  cases (Item.argumentsOf first rest).misplaced <;> rfl

/-- An operation is moved with its operands. -/
private theorem moves_operation (hReach : first.reach ≠ some rest.length) (hRest : rest ≠ [])
    (hShorter : ∀ items : List Item, items.length < (first :: rest).length →
      ∀ follows, Moves amount place follows items)
    (follows : Span) : Moves amount place follows (first :: rest) := by
  have hReach' : (first.move amount place).reach ≠
      some (rest.map (Item.move amount place)).length := by
    rwa [Item.move_reach, List.length_map]
  have hRest' : rest.map (Item.move amount place) ≠ [] := by simpa using hRest
  rw [Moves, List.map_cons, ofItems?_operation _ hReach' hRest', ofItems?_operation _ hReach hRest,
    ← List.map_cons, Item.checkTopLevel_move, Item.weakest_move, mapError_bind]
  congr 1
  funext _
  have hWeakest := Item.weakest_lt first rest
  generalize Item.weakest first rest = weakest at hWeakest
  obtain ⟨position, pivot⟩ := weakest
  simp only [Item.move_token, Token.move_operator?, Token.move_span, Token.move_text]
  cases pivot.token.operator? with
  | none => rfl
  | some op =>
      have hLeft := hShorter ((first :: rest).take position)
        (by simp only [List.length_take]; omega) pivot.token.span
      have hRight := hShorter ((first :: rest).drop (position + 1))
        (by simp only [List.length_drop, List.length_cons]; omega) pivot.token.span
      rw [Moves, List.map_take] at hLeft
      rw [Moves, List.map_drop] at hRight
      simp only [hLeft, hRight, mapError_bind]
      rfl

end

/-- **Reading items commutes with moving them.** The expression is the same, and
so is the cause of a refusal. -/
theorem ofItems?_move (follows : Span) (items : List Item) :
    ofItems? (place follows) (items.map (Item.move amount place)) =
      (ofItems? follows items).mapError (ParseError.move place) := by
  induction hLength : items.length using Nat.strongRecOn generalizing items follows with
  | _ length ih =>
  subst hLength
  cases items with
  | nil =>
      rw [List.map_nil, ofItems?_nil, ofItems?_nil]
      rfl
  | cons first rest =>
      by_cases hReach : first.reach = some rest.length
      · refine moves_call hReach (fun a ha => ?_) follows
        exact ih _ (Nat.lt_succ_of_le (Item.length_le_of_mem_argumentsOf ha)) a.follows a.items rfl
      · by_cases hSingle : rest = []
        · subst hSingle
          have hBare : first.reach ≠ some 0 := hReach
          have hBare' : (first.move amount place).reach ≠ some 0 := hReach
          rw [List.map_singleton, ofItems?_operand _ hBare', ofItems?_operand _ hBare]
          exact ofToken?_move place first.token
        · exact moves_operation hReach hSingle
            (fun items hItems follows => ih _ hItems follows items rfl) follows

/-- **Priorities matter by comparison only.** -/
theorem ofItems?_raise (follows : Span) (items : List Item) :
    ofItems? follows (items.map (Item.raise amount)) = ofItems? follows items := by
  have hMove := ofItems?_move amount id follows items
  have hSame : (ofItems? follows items).mapError (ParseError.move id) = ofItems? follows items := by
    cases ofItems? follows items <;> rfl
  rw [hSame] at hMove
  exact hMove

end Expr

/-! ## Sources -/

/-- The region further back in a source. -/
def Span.shift (distance : Nat) (span : Span) : Span :=
  ⟨span.start + distance, span.stop + distance⟩

namespace Token

theorem Tile.shift {start : Nat} {ts : List Token} (hTile : Tile start ts) (distance : Nat) :
    Tile (start + distance) (ts.map (move (Span.shift distance))) := by
  induction ts generalizing start with
  | nil => trivial
  | cons t ts ih =>
      obtain ⟨hSpan, hRest⟩ := hTile
      have hBehind : start + distance + Piece.byteLength t.lexeme =
          start + Piece.byteLength t.lexeme + distance := by omega
      refine ⟨?_, ?_⟩
      · rw [move_span, hSpan, Span.shift, move_lexeme, hBehind]
      · rw [move_lexeme, hBehind]
        exact ih hRest

/-- **A text has the same tokens further back in a source.** -/
theorem from?_shift {start : Nat} {s : List Char} {ts : List Token}
    (hTokens : from? start s = .ok ts) (distance : Nat) :
    from? (start + distance) s = .ok (ts.map (move (Span.shift distance))) := by
  obtain ⟨hSpelled, hApart, hTile, hSpells⟩ := from?_eq_ok_iff.1 hTokens
  refine from?_eq_ok_iff.2 ⟨?_, ?_, hTile.shift distance, ?_⟩
  · intro t ht
    obtain ⟨u, hu, rfl⟩ := List.mem_map.1 ht
    obtain ⟨hSome, hKind, hSingle⟩ := hSpelled u hu
    exact ⟨hSome, hKind, hSingle⟩
  · rw [List.isChain_map]
    exact hApart
  · rw [List.flatMap_map]
    exact hSpells

end Token

namespace Bracketed

open Token

/-- The same sequence in another place. -/
def move (place : Span → Span) : Bracketed → Bracketed
  | nil => nil
  | word t rest => word (t.move place) (rest.move place)
  | group opening closing inside rest =>
    group (opening.move place) (closing.move place) (inside.move place) (rest.move place)
  | call name opening closing inside rest =>
    call (name.move place) (opening.move place) (closing.move place) (inside.move place)
      (rest.move place)

theorem tokens_move (b : Bracketed) : (b.move place).tokens = b.tokens.map (Token.move place) := by
  induction b with
  | nil => rfl
  | word t rest ih => simp [move, tokens, ih]
  | group opening closing inside rest ihInside ih => simp [move, tokens, ihInside, ih]
  | call name opening closing inside rest ihInside ih => simp [move, tokens, ihInside, ih]

theorem size_move (b : Bracketed) : (b.move place).size = b.size := by
  induction b with
  | nil => rfl
  | word t rest ih => simp [move, size, ih]
  | group opening closing inside rest ihInside ih => simp [move, size, ihInside, ih]
  | call name opening closing inside rest ihInside ih => simp [move, size, ihInside, ih]

theorem height_move (b : Bracketed) : (b.move place).height = b.height := by
  induction b with
  | nil => rfl
  | word t rest ih => simp [move, height, ih]
  | group opening closing inside rest ihInside ih => simp [move, height, ihInside, ih]
  | call name opening closing inside rest ihInside ih => simp [move, height, ihInside, ih]

theorem startsGroup_move (b : Bracketed) : (b.move place).startsGroup = b.startsGroup := by
  cases b <;> rfl

theorem Proper.move {b : Bracketed} (hProper : b.Proper) : (b.move place).Proper := by
  induction b with
  | nil => trivial
  | word t rest ih =>
      obtain ⟨hParen, hCall, hRest⟩ := hProper
      refine ⟨hParen, fun hNames => ?_, ih hRest⟩
      rw [startsGroup_move]
      exact hCall hNames
  | group opening closing inside rest ihInside ih =>
      obtain ⟨hOpening, hClosing, hInside, hRest⟩ := hProper
      exact ⟨hOpening, hClosing, ihInside hInside, ih hRest⟩
  | call name opening closing inside rest ihInside ih =>
      obtain ⟨hName, hOpening, hClosing, hInside, hRest⟩ := hProper
      exact ⟨hName, hOpening, hClosing, ihInside hInside, ih hRest⟩

theorem priorityAt_move (depth more : Nat) (t : Token) :
    priorityAt (depth + more) (t.move place) = priorityAt depth t + nestingStep * more := by
  have hBase : (t.move place).basePriority = t.basePriority := rfl
  rw [priorityAt, priorityAt, hBase, Nat.cast_add, Int.mul_add, Int.add_assoc]

/-- **The items deeper inside of parentheses** are those outside of them, with
priorities that are raised by the same amount. -/
theorem items_move (b : Bracketed) (depth more : Nat) :
    (b.move place).items (depth + more) =
      (b.items depth).map (Item.move (nestingStep * more) place) := by
  induction b generalizing depth with
  | nil => rfl
  | word t rest ih =>
      rw [move, items, items, List.map_cons, ih, priorityAt_move]
      rfl
  | group opening closing inside rest ihInside ih =>
      rw [move, items, items, List.map_append, ih, ← ihInside, Nat.add_right_comm]
  | call name opening closing inside rest ihInside ih =>
      rw [move, items, items, List.map_cons, List.map_append, ih, ← ihInside, priorityAt_move,
        size_move, Nat.add_right_comm]
      rfl

end Bracketed

end Fluxion
