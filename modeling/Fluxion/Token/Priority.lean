import Fluxion.ParseError

/-!
# Priorities: binding strength and depth in one number

Parentheses are needed only to say how deep a token lies. The priority of a
token is its own binding strength plus a fixed step for every pair of
parentheses around it, so that afterwards an operator can be compared with any
other one without looking at parentheses again: the deeper of two operators
binds more strongly, and at equal depth their own strength decides.

The encoding is faithful as long as an operator, at whatever depth, stays
below everything that is no operator, at whatever depth. That bounds the
depth, and `maxNesting` is the largest bound that works: deeper parentheses
are refused.
-/

namespace Fluxion.Token

/-- The priority of every token that is no operator. -/
def operandPriority : Nat := 1000

/-- What a pair of parentheses adds to the priorities between them. It exceeds
the difference between any two operators. -/
def nestingStep : Nat := 50

/-- The deepest nesting of parentheses at which an operator stays below every
operand. -/
def maxNesting : Nat := (operandPriority - 1) / nestingStep

/-- The priority of a token outside all parentheses. -/
def basePriority (t : Token) : Nat :=
  match t.operator? with
  | some op => op.priority
  | none => operandPriority

/-- The priority of a token inside `depth` pairs of parentheses. -/
def priorityAt (depth : Nat) (t : Token) : Int :=
  t.basePriority + nestingStep * depth

/-- The priorities of tokens that stand inside the parentheses opened at
`opened`, the innermost first. An opening parenthesis counts as inside its own
pair, a closing one as outside. Refused are an opening parenthesis that goes
too deep and a closing one without a partner, whichever comes first, and
otherwise the last opening one that is never closed. -/
def prioritiesInside (opened : List Span) : List Token → Except ParseError (List Int)
  | [] =>
    match opened with
    | [] => .ok []
    | innermost :: _ => .error ⟨innermost, .unclosedParenthesis true⟩
  | t :: rest =>
    match t.kind with
    | .openParen =>
      if opened.length < maxNesting then do
        let following ← prioritiesInside (t.span :: opened) rest
        return priorityAt (opened.length + 1) t :: following
      else .error ⟨t.span, .nestingTooDeep maxNesting⟩
    | .closeParen =>
      match opened with
      | [] => .error ⟨t.span, .unclosedParenthesis false⟩
      | _ :: outer => do
        let following ← prioritiesInside outer rest
        return priorityAt outer.length t :: following
    | .number | .operator | .name | .comma => do
      let following ← prioritiesInside opened rest
      return priorityAt opened.length t :: following

/-- The priority of every token of a source. -/
def priorities : List Token → Except ParseError (List Int) :=
  prioritiesInside []

/-- Nineteen pairs of parentheses can lie inside each other. -/
theorem maxNesting_eq : maxNesting = 19 := by
  decide

end Fluxion.Token
