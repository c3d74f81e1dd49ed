import Fluxion.Text.DefaultIgnorable
import Fluxion.Text.ExtendingMark
import Fluxion.Text.NonGraphic

/-!
# Naming characters in a message

A message that names one character has to stay readable when that character
is a line break, a quote or not in the reader's font. Printable characters
stand for themselves; the five with a short escape, and the backslash, get
it; every other character is named by its code point in hexadecimal.

Whole names are quoted more sparingly: letters of every script stand for
themselves. Escaped is only what would end the quotation or break the line,
what has no shape of its own or is drawn as nothing, and marks that would be
drawn onto the character, or the quote, before them.
-/

namespace Fluxion.Text

/-- The code point of a character as an escape. -/
def codePoint (c : Char) : String :=
  "\\u\x7b" ++ String.ofList (Nat.toDigits 16 c.toNat) ++ "\x7d"

/-- The short escape of a character, if it has one wherever it stands. -/
def shortEscape? : Char → Option String
  | '\t' => some "\\t"
  | '\n' => some "\\n"
  | '\r' => some "\\r"
  | '"' => some "\\\""
  | '\\' => some "\\\\"
  | _ => none

/-- A single character as it is named in a message. -/
def escape (c : Char) : String :=
  match shortEscape? c with
  | some text => text
  | none =>
    if c = '\'' then "\\'"
    else if 0x20 ≤ c.toNat ∧ c.toNat ≤ 0x7E then c.toString
    else codePoint c

/-- A character as it is written inside a quotation. -/
def escapeQuoted (c : Char) : String :=
  match shortEscape? c with
  | some text => text
  | none =>
    if c.toNat = 0 then "\\0"
    else if isExtendingMark c || isNonGraphic c || isDefaultIgnorable c then codePoint c
    else c.toString

/-- A text between double quotes. -/
def quote (text : String) : String :=
  "\"" ++ String.join (text.toList.map escapeQuoted) ++ "\""

end Fluxion.Text
