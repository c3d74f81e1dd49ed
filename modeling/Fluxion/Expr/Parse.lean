import Fluxion.Expr.Basic
import Fluxion.Item.Arguments
import Fluxion.Item.Weakest
import Fluxion.Number.Literal
import Fluxion.Token.Lexing
import Fluxion.Token.Priority

/-!
# Reading expressions

A source, given as its characters, becomes tokens, tokens become items, and a
list of items is taken apart from the top: at its weakest item if that is an
operator, at its commas if one call covers all of it, and not at all if it is
a single operand. No grammar is consulted on the way; priorities and reaches
hold everything that parentheses said.

Every way of taking a list apart leaves shorter lists, so the recursion ends
for any items whatever, those no source produces included.

## Main results

* `ofItems?_nil`, `ofItems?_call`, `ofItems?_operand`, `ofItems?_operation`:
  what becomes of a list of items, case by case.
-/

namespace Fluxion.Expr

/-- The operand that a token stands for by itself. -/
def ofToken? (t : Token) : Except ParseError Expr :=
  match t.kind with
  | .number =>
    match Number.literal? t.lexeme with
    | some value => .ok (const value)
    | none => .error ⟨t.span, .invalidNumber t.text⟩
  | .name =>
    match constant? t.text with
    | some value => .ok (const value)
    | none => .ok (var t.text)
  | .comma => .error ⟨t.span, .misplacedComma⟩
  | .operator =>
    if t.operator?.isSome then .error ⟨t.span, .emptyExpression⟩
    else .error ⟨t.span, .invalidOperator t.text⟩
  | .openParen | .closeParen => .error ⟨t.span, .emptyExpression⟩

/-- The expression that a list of items stands for. An empty one is refused
at the region `follows`, which points at whatever wanted an expression.

Refused, in this order, are a comma or a run of operator characters on the
top level, and a weakest item that is no operator; then the left side is
read, then the right. Among arguments, a comma that separates nothing is
refused when it is reached, after the arguments before it have been read. -/
def ofItems? (follows : Span) : List Item → Except ParseError Expr
  | [] => .error ⟨follows, .emptyExpression⟩
  | first :: rest =>
    if first.reach = some rest.length then do
      let cut := Item.argumentsOf first rest
      let arguments ← cut.arguments.attach.mapM fun a => ofItems? a.1.follows a.1.items
      match cut.misplaced with
      | some comma => .error ⟨comma, .misplacedComma⟩
      | none => return call first.token.text arguments
    else if rest.isEmpty then ofToken? first.token
    else do
      Item.checkTopLevel (first :: rest)
      let weakest := Item.weakest first rest
      let pivot := weakest.2.token
      match pivot.operator? with
      | none => .error ⟨pivot.span, .expectedOperator pivot.text⟩
      | some op => do
        let left ← ofItems? pivot.span ((first :: rest).take weakest.1)
        let right ← ofItems? pivot.span ((first :: rest).drop (weakest.1 + 1))
        return binary op left right
termination_by items => items.length
decreasing_by
  · have := Item.length_le_of_mem_argumentsOf a.2
    simp only [List.length_cons]
    omega
  · have := Item.weakest_lt first rest
    simp only [List.length_take]
    omega
  · have := Item.weakest_lt first rest
    simp only [List.length_drop]
    omega

/-- The empty region behind the last byte of a source. -/
def endOf (source : List Char) : Span :=
  let stop := Piece.byteLength source
  ⟨stop, stop⟩

/-- The items of a source. -/
def itemsOf? (source : List Char) : Except ParseError (List Item) := do
  let tokens ← Token.ofSource? source
  let priorities ← Token.priorities tokens
  return Item.ofTokens tokens priorities

/-- The expression that a source stands for. -/
def parse (source : List Char) : Except ParseError Expr := do
  let items ← itemsOf? source
  ofItems? (endOf source) items

/-! ## The cases of reading items -/

@[simp] theorem ofItems?_nil (follows : Span) :
    ofItems? follows [] = .error ⟨follows, .emptyExpression⟩ := by
  rw [ofItems?]

/-- A call that covers the whole list: its arguments are read in order, and
a misplaced comma behind them is refused. -/
theorem ofItems?_call (follows : Span) {first : Item} {rest : List Item}
    (hCall : first.reach = some rest.length) :
    ofItems? follows (first :: rest) =
      ((Item.argumentsOf first rest).arguments.mapM fun a => ofItems? a.follows a.items) >>=
        fun arguments =>
          match (Item.argumentsOf first rest).misplaced with
          | some comma => .error ⟨comma, .misplacedComma⟩
          | none => .ok (call first.token.text arguments) := by
  have hAttach : (Item.argumentsOf first rest).arguments.attach.mapM
        (fun a => ofItems? a.1.follows a.1.items) =
      (Item.argumentsOf first rest).arguments.mapM fun a => ofItems? a.follows a.items := by
    rw [List.mapM_subtype (g := fun a => ofItems? a.follows a.items) (fun _ _ => rfl),
      List.unattach_attach]
  rw [ofItems?, if_pos hCall, ← hAttach]
  rfl

/-- A single item that is not called. -/
theorem ofItems?_operand (follows : Span) {first : Item} (hCall : first.reach ≠ some 0) :
    ofItems? follows [first] = ofToken? first.token := by
  rw [ofItems?, if_neg (by simpa using hCall)]
  rfl

/-- Several items that are no call: they are taken apart at the weakest. -/
theorem ofItems?_operation (follows : Span) {first : Item} {rest : List Item}
    (hCall : first.reach ≠ some rest.length) (hRest : rest ≠ []) :
    ofItems? follows (first :: rest) =
      Item.checkTopLevel (first :: rest) >>= fun _ =>
        match (Item.weakest first rest).2.token.operator? with
        | none => .error ⟨(Item.weakest first rest).2.token.span,
            .expectedOperator (Item.weakest first rest).2.token.text⟩
        | some op =>
          ofItems? (Item.weakest first rest).2.token.span
              ((first :: rest).take (Item.weakest first rest).1) >>= fun left =>
            ofItems? (Item.weakest first rest).2.token.span
                ((first :: rest).drop ((Item.weakest first rest).1 + 1)) >>= fun right =>
              .ok (binary op left right) := by
  rw [ofItems?, if_neg hCall, if_neg (by simpa using hRest)]
  rfl

end Fluxion.Expr
