import Fluxion.Function
import Fluxion.Token.Basic

/-!
# Items: tokens without parentheses

Once every token has a priority, parentheses have done their work but for one
thing: those of a call say where its arguments end. An item is a token other
than a parenthesis, with its priority and, if it is the name of a call, its
**reach**, the number of items that make up the arguments. These are exactly
the items that follow it, so an item and its reach tell where the call ends
without any parenthesis left to count.

Items can also be put together by hand, with any priority and any reach.
-/

namespace Fluxion

/-- A token with its priority and, for the name of a call, the number of items
its arguments take. -/
structure Item where
  /-- The token. -/
  token : Token
  /-- Its binding strength, depth included. -/
  priority : Int
  /-- How many of the following items are arguments, if it is called. -/
  reach : Option Nat
  deriving DecidableEq, Repr

namespace Item

/-- The number of following items that belong to this one. -/
def covered (item : Item) : Nat :=
  item.reach.getD 0

/-- The number of items this one covers, itself included. -/
def extent (item : Item) : Nat :=
  1 + item.covered

/-- The number of tokens other than parentheses before the closing parenthesis
that matches an opening one just passed, when `depth` more are open. -/
def countEnclosed (depth : Nat) : List Token → Nat
  | [] => 0
  | t :: rest =>
    match t.kind with
    | .openParen => countEnclosed (depth + 1) rest
    | .closeParen =>
      match depth with
      | 0 => 0
      | depth + 1 => countEnclosed depth rest
    | .number | .operator | .name | .comma => countEnclosed depth rest + 1

/-- The reach of a token before the given ones: it is called if it names a
function and an opening parenthesis follows directly. -/
def reachOf (t : Token) (following : List Token) : Option Nat :=
  match following with
  | [] => none
  | next :: enclosed =>
    if t.kind = .name ∧ (Function.ofName? t.text).isSome ∧ next.kind = .openParen then
      some (countEnclosed 0 enclosed)
    else none

/-- The items of tokens with the given priorities. -/
def ofTokens : List Token → List Int → List Item
  | t :: tokens, priority :: priorities =>
    if t.isParen then ofTokens tokens priorities
    else ⟨t, priority, reachOf t tokens⟩ :: ofTokens tokens priorities
  | _, _ => []

end Item

end Fluxion
