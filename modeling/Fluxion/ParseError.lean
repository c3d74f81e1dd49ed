import Fluxion.Explanation
import Fluxion.Text.Escape
import Fluxion.Token.Basic

/-!
# Why a source is no expression

A source that is refused is refused for one cause, at one region of it.
-/

namespace Fluxion

/-- The causes for which a source is refused. -/
inductive ParseError.Cause where
  /-- A character outside the alphabet. -/
  | invalidCharacter (character : Char)
  /-- An operator, a comma or the whole source has nothing to stand for. -/
  | emptyExpression
  /-- A parenthesis without its partner; tells whether it opens. -/
  | unclosedParenthesis (opening : Bool)
  /-- More parentheses inside each other than priorities can tell apart. -/
  | nestingTooDeep (limit : Nat)
  /-- Digits and points that spell no number. -/
  | invalidNumber (lexeme : String)
  /-- Operator characters that make no operator. -/
  | invalidOperator (lexeme : String)
  /-- A value next to another with no operator between them. -/
  | expectedOperator (found : String)
  /-- A comma that separates no arguments. -/
  | misplacedComma
  deriving DecidableEq, Repr

/-- A refusal: its cause and the region of the source it is found at. -/
structure ParseError where
  /-- The region to point at. -/
  span : Span
  /-- What is wrong there. -/
  cause : ParseError.Cause
  deriving DecidableEq, Repr

namespace ParseError

/-- A cause in words. -/
def Cause.explanation : Cause → Explanation
  | invalidCharacter character => {
      message := "unexpected character `" ++ Text.escape character ++ "`"
      label := "this character"
      help := "expressions may only contain numbers, names, the operators + - * / ^, " ++
        "parentheses and commas (without whitespace)" }
  | emptyExpression => {
      message := "missing expression"
      label := "you might need to add another expression here"
      help := "negative values must be written as a subtraction, such as 0-x" }
  | unclosedParenthesis opening => {
      message := "unclosed parenthesis"
      label := "this parenthesis is not closed"
      help :=
        if opening then "add a closing parenthesis `)` somewhere after this"
        else "add an opening parenthesis `(` somewhere before this" }
  | nestingTooDeep limit => {
      message := "parentheses are nested too deeply"
      label := "this parenthesis"
      help := "at most " ++ toString limit ++ " levels of parentheses are supported" }
  | invalidNumber lexeme => {
      message := "`" ++ lexeme ++ "` is not a valid number"
      label := "this number"
      help := "numbers may contain at most one decimal point" }
  | invalidOperator lexeme => {
      message := "`" ++ lexeme ++ "` is not an operator"
      label := "this operator"
      help := "operators cannot be written back to back; write 2*(0-3) instead of 2*-3" }
  | expectedOperator found => {
      message := "expected an operator before or after `" ++ found ++ "`"
      label := "this value"
      help := "values must be joined by one of + - * / ^, and functions called with " ++
        "parentheses, such as sin(x)" }
  | misplacedComma => {
      message := "unexpected comma"
      label := "this comma"
      help := "commas may only separate function arguments, such as in log(8,2)" }

/-- The refusal in words. -/
def explanation (e : ParseError) : Explanation :=
  e.cause.explanation

end ParseError

end Fluxion
