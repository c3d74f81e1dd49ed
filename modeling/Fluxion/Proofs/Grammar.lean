import Fluxion.Expr.Basic
import Fluxion.Function
import Fluxion.Number.Literal

/-!
# The precedence grammar

The language in its textbook form, with a nonterminal for each level of
binding strength:

    expr      := expr (+|-) term | term
    term      := term (*|/) power | power
    power     := atom ^ power | atom
    atom      := number | name | (expr) | fn() | fn(arguments)
    arguments := expr | expr,arguments

`Derives` relates a nonterminal, a text and the expressions that a derivation
of the text builds. Nothing here looks at priorities, depths or reaches; the
reader of expressions is compared with this relation elsewhere.

## Main definitions

* `Grammar.Derives` — the derivations, with what they build.
* `Grammar.nesting` — how deep the parentheses of a text lie inside each
  other.
-/

namespace Fluxion.Grammar

open Fluxion.Expr

/-- The nonterminals. -/
inductive Symbol where
  | expr
  | term
  | power
  | atom
  | arguments
  deriving DecidableEq, Repr

namespace Symbol

/-- The nonterminal that an operation with the given operator belongs to. -/
def ofOperator : Operator → Symbol
  | .add | .sub => expr
  | .mul | .div => term
  | .pow => power

/-- The nonterminal of an operand: the side to which operators group repeats
their own level, the other one continues with the next. -/
def operand : Operator → Side → Symbol
  | .add, .left | .sub, .left => expr
  | .add, .right | .sub, .right => term
  | .mul, .left | .div, .left => term
  | .mul, .right | .div, .right => power
  | .pow, .left => atom
  | .pow, .right => power

end Symbol

/-! ## Numbers and names -/

/-- A number: a run of digits with at most one point and at least one digit,
with the decimal it spells. -/
inductive Spells : List Char → Number.Decimal → Prop
  | whole {digits : List Char} (hSome : digits ≠ []) (hDigits : ∀ c ∈ digits, c.isDigit) :
      Spells digits ⟨Number.ofDigits digits, 0⟩
  | point {digits places : List Char} (hSome : digits ++ places ≠ [])
      (hDigits : ∀ c ∈ digits ++ places, c.isDigit) :
      Spells (digits ++ '.' :: places) ⟨Number.ofDigits (digits ++ places), -places.length⟩

/-- What a name stands for by itself: `pi` and `e` for their numbers, every
other name for a variable. -/
def named (name : List Char) : Expr :=
  if name = ['p', 'i'] then const pi
  else if name = ['e'] then const euler
  else var (String.ofList name)

/-- The numbers are those nearest to the first sixteen digits. -/
theorem pi_eq :
    pi = Number.ofPattern false (Number.Decimal.pattern ⟨3141592653589793, -15⟩) := by
  decide +kernel

theorem euler_eq :
    euler = Number.ofPattern false (Number.Decimal.pattern ⟨2718281828459045, -15⟩) := by
  decide +kernel

/-- A name that stands for a number is that of a constant. -/
theorem named_eq (name : List Char) :
    named name =
      match constant? (String.ofList name) with
      | some value => const value
      | none => var (String.ofList name) := by
  have hSame (word : String) : String.ofList name = word ↔ name = word.toList :=
    ⟨fun hName => by rw [← hName, String.toList_ofList], fun hName => by
      rw [hName, String.ofList_toList]⟩
  have hPi : String.ofList name = "pi" ↔ name = ['p', 'i'] := hSame "pi"
  have hEuler : String.ofList name = "e" ↔ name = ['e'] := hSame "e"
  simp only [named, constant?, hPi, hEuler]
  split
  · rfl
  · split <;> rfl

/-! ## Derivations -/

/-- The texts of each nonterminal, with the expressions they stand for: the
list of them for `arguments`, a single one for every other nonterminal.
Grouping parentheses leave no trace. -/
inductive Derives : Symbol → List Char → List Expr → Prop
  | number {s : List Char} {d : Number.Decimal} (hSpells : Spells s d) :
      Derives .atom s [const (Number.ofPattern false d.pattern)]
  | name {s : List Char} (hSome : s ≠ []) (hLetters : ∀ c ∈ s, c.isAlpha) :
      Derives .atom s [named s]
  | group {s : List Char} {e : Expr} (hInside : Derives .expr s [e]) :
      Derives .atom ('(' :: (s ++ [')'])) [e]
  | emptyCall (f : Function) :
      Derives .atom (f.name.toList ++ ['(', ')']) [call f.name []]
  | call (f : Function) {s : List Char} {es : List Expr} (hArguments : Derives .arguments s es) :
      Derives .atom (f.name.toList ++ '(' :: (s ++ [')'])) [call f.name es]
  | operation (op : Operator) {s t : List Char} {a b : Expr}
      (hLeft : Derives (.operand op .left) s [a]) (hRight : Derives (.operand op .right) t [b]) :
      Derives (.ofOperator op) (s ++ op.symbol :: t) [binary op a b]
  | term {s : List Char} {e : Expr} (hTerm : Derives .term s [e]) : Derives .expr s [e]
  | power {s : List Char} {e : Expr} (hPower : Derives .power s [e]) : Derives .term s [e]
  | atom {s : List Char} {e : Expr} (hAtom : Derives .atom s [e]) : Derives .power s [e]
  | lastArgument {s : List Char} {e : Expr} (hLast : Derives .expr s [e]) :
      Derives .arguments s [e]
  | moreArguments {s t : List Char} {e : Expr} {es : List Expr} (hFirst : Derives .expr s [e])
      (hMore : Derives .arguments t es) : Derives .arguments (s ++ ',' :: t) (e :: es)

/-! ## Nesting -/

/-- The most pairs of parentheses that lie inside each other at any place of a
text, when `opened` are open in front of it. -/
def nesting (opened : Nat) : List Char → Nat
  | [] => opened
  | c :: rest =>
    if c = '(' then nesting (opened + 1) rest
    else if c = ')' then max opened (nesting (opened - 1) rest)
    else nesting opened rest

theorem le_nesting (opened : Nat) (s : List Char) : opened ≤ nesting opened s := by
  induction s generalizing opened with
  | nil => exact Nat.le_refl _
  | cons c rest ih =>
      unfold nesting
      split
      · have := ih (opened + 1)
        omega
      · split
        · exact Nat.le_max_left _ _
        · exact ih opened

/-- Characters other than parentheses do not nest anything. -/
theorem nesting_append_of_noParen {s : List Char} (opened : Nat) (rest : List Char)
    (hPlain : ∀ c ∈ s, c ≠ '(' ∧ c ≠ ')') : nesting opened (s ++ rest) = nesting opened rest := by
  induction s with
  | nil => rfl
  | cons c s ih =>
      have hc := hPlain c (by simp)
      have hRest := ih fun d hd => hPlain d (by simp [hd])
      rw [List.cons_append, nesting, if_neg hc.1, if_neg hc.2, hRest]

end Fluxion.Grammar
