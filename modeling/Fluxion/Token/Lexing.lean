import Fluxion.ParseError

/-!
# Cutting a source into tokens

A source is cut between two neighbouring characters unless both belong to one
class whose characters run together. The cuts are made before anything is
judged: a piece either is a token, whose kind is the class of its characters,
or a single stray character outside the alphabet. Positions are counted
afterwards, by adding up the bytes of the pieces, so no position is ever
computed twice.
-/

namespace Fluxion

/-- A piece of a source. -/
inductive Piece where
  /-- Characters that make a token. -/
  | token (t : Token)
  /-- A character outside the alphabet. -/
  | stray (character : Char) (span : Span)
  deriving DecidableEq, Repr

namespace Piece

/-! ## Runs -/

/-- Whether two neighbouring characters stay together. -/
def joins (a b : Char) : Bool :=
  match Token.Kind.ofChar? a with
  | some kind => kind.runs && Token.Kind.ofChar? b == some kind
  | none => false

/-- The source cut into runs. -/
def runsOf (source : List Char) : List (List Char) :=
  source.splitBy joins

/-! ## Placed pieces -/

-- The zero of a sum is the numeral, whatever else is imported.
attribute [local instance (high)] Zero.ofOfNat0

/-- The number of bytes that characters take. -/
def byteLength (text : List Char) : Nat :=
  (text.map Char.utf8Size).sum

/-- The piece that a run makes at the given region. An empty run, which no
cutting produces, makes none. -/
def ofRun? (run : List Char) (span : Span) : Option Piece :=
  run.head?.map fun first =>
    match Token.Kind.ofChar? first with
    | some kind => token ⟨kind, run, span⟩
    | none => stray first span

/-- The pieces that consecutive runs make from byte `start` on. -/
def place (start : Nat) : List (List Char) → List Piece
  | [] => []
  | run :: rest =>
    let stop := start + byteLength run
    (ofRun? run ⟨start, stop⟩).toList ++ place stop rest

/-- The pieces of a source, in order. -/
def ofSource (source : List Char) : List Piece :=
  place 0 (runsOf source)

/-- The token of a piece; a stray character is refused. -/
def token? : Piece → Except ParseError Token
  | token t => .ok t
  | stray character span => .error ⟨span, .invalidCharacter character⟩

end Piece

/-- The tokens of a source. The first stray character is refused. -/
def Token.ofSource? (source : List Char) : Except ParseError (List Token) :=
  (Piece.ofSource source).mapM Piece.token?

end Fluxion
