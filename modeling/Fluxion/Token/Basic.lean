import Fluxion.Operator

/-!
# Tokens

The words of the language. A token knows its kind, its characters and the
bytes of the source it was read from. Numbers, operators and names are runs
of characters of one class, as long as the class lasts; parentheses and
commas are always single characters.
-/

namespace Fluxion

/-- A region of a source, in bytes of its UTF-8 encoding; the end is not part
of it. -/
structure Span where
  /-- The first byte. -/
  start : Nat
  /-- The first byte behind the region. -/
  stop : Nat
  deriving DecidableEq, Repr

namespace Token

/-- The kinds of tokens, which are also the classes of characters. -/
inductive Kind where
  /-- Digits and points. -/
  | number
  /-- Operator characters. -/
  | operator
  /-- Letters. -/
  | name
  /-- An opening parenthesis. -/
  | openParen
  /-- A closing parenthesis. -/
  | closeParen
  /-- A comma. -/
  | comma
  deriving DecidableEq, Repr

namespace Kind

/-- The class of a character; characters outside the alphabet have none. The
alphabet is part of ASCII. -/
def ofChar? (c : Char) : Option Kind :=
  if c.isDigit || c == '.' then some number
  else if (Operator.ofChar? c).isSome then some operator
  else if c.isAlpha then some name
  else if c = '(' then some openParen
  else if c = ')' then some closeParen
  else if c = ',' then some comma
  else none

/-- Whether neighbouring characters of this class make one token. -/
def runs : Kind → Bool
  | number | operator | name => true
  | openParen | closeParen | comma => false

/-- Whether tokens of this kind are parentheses. -/
def isParen : Kind → Bool
  | openParen | closeParen => true
  | number | operator | name | comma => false

end Kind

end Token

/-- A token of a source. -/
structure Token where
  /-- What kind of token it is. -/
  kind : Token.Kind
  /-- Its characters. -/
  lexeme : List Char
  /-- Where it stands. -/
  span : Span
  deriving DecidableEq, Repr

namespace Token

/-- The characters of a token as text. -/
def text (t : Token) : String :=
  String.ofList t.lexeme

/-- Whether the token is a parenthesis. -/
def isParen (t : Token) : Bool :=
  t.kind.isParen

/-- The operator that the token stands for. A run of operator characters that
is no operator stands for none, and so does every token of another kind. -/
def operator? (t : Token) : Option Operator :=
  if t.kind = .operator then Operator.ofText? t.lexeme else none

end Token

end Fluxion
