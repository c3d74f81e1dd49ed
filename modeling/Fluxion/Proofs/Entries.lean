import Fluxion.Prompt
import Fluxion.Proofs.Acceptance
import Fluxion.Proofs.Reprinting

/-!
# What is typed has one value

A typed line is tried as a literal first and as an expression afterwards. Few
lines are both. An expression does not start with a sign, so no literal with a
sign is one; digits in front of a letter are an operand in front of another
one, so no literal with an exponent is one; and the words for what is not
finite are names that nothing is bound to. Numerals are left, and these are
read as numbers in both ways.

So the two readings can be tried in either order.

## Main results

* `Bracketed.exists_leads_of_parse` — what is read leads from operand to
  operator.
* `Prompt.isNumeral_iff_readings` — the entries that can be read in both ways.
* `Prompt.readings_agree` — the readings agree, in whichever order they are
  tried.
-/

namespace Fluxion

open Item (Phase)
open Grammar Number Token

/-! ## The first tokens of a text -/

namespace Token

section

variable {start : Nat} {c : Char} {rest : List Char} {ts : List Token}

/-- The first token of a text is of the kind of its first character. -/
theorem exists_first_token (hTokens : from? start (c :: rest) = .ok ts) :
    ∃ t more, ts = t :: more ∧ Kind.ofChar? c = some t.kind := by
  have hText := flatMap_lexeme hTokens
  have hSpelled := spelled_of_mem hTokens
  cases ts with
  | nil => cases hText
  | cons t more =>
      have hFirst := hSpelled t List.mem_cons_self
      obtain ⟨d, letters, hLexeme⟩ := List.exists_cons_of_ne_nil hFirst.nonempty
      rw [List.flatMap_cons, hLexeme, List.cons_append] at hText
      obtain ⟨rfl, -⟩ := List.cons.inj hText
      exact ⟨t, more, rfl, hFirst.ofKind d (by simp [hLexeme])⟩

/-- A run at the start of a text, which the character behind it does not go on
with, is the first token; the second one is of the kind of that character. -/
theorem exists_second_token {run : List Char} {kind : Kind} (hSome : run ≠ [])
    (hKind : ∀ d ∈ run, Kind.ofChar? d = some kind) (hRuns : kind.runs)
    (hApart : Kind.ofChar? c ≠ some kind) (hTokens : from? start (run ++ c :: rest) = .ok ts) :
    ∃ t u more, ts = t :: u :: more ∧ t.kind = kind ∧ Kind.ofChar? c = some u.kind := by
  have hCut : ∀ a ∈ run.getLast?, ∀ b ∈ (c :: rest).head?, Piece.joins a b = false := by
    intro a ha b hb
    obtain rfl : c = b := by simpa using hb
    refine Grammar.joins_eq_false ?_
    rw [hKind a (List.mem_of_getLast? ha)]
    exact hApart.symm
  rw [from?_append start hCut, from?_run start hSome hKind (.inl hRuns)] at hTokens
  obtain ⟨front, hFront, hTokens⟩ := bind_eq_ok_iff.1 hTokens
  obtain ⟨back, hBack, hTokens⟩ := bind_eq_ok_iff.1 hTokens
  cases hFront
  cases hTokens
  obtain ⟨u, more, rfl, hSecond⟩ := exists_first_token hBack
  exact ⟨_, u, more, rfl, rfl, hSecond⟩

end

end Token

/-! ## How what is read starts -/

/-- The kind of token that no sequence starts with in the phase. -/
def Item.Phase.excluded : Phase → Kind
  | .operand => .operator
  | .operator => .name

namespace Bracketed

/-- A sequence starts with no operator where an operand is expected, and with
no name where an operator is. -/
theorem kind_head?_of_leads {b : Bracketed} (hProper : b.Proper) {p q : Phase}
    (hLeads : b.Leads p q) : ∀ t ∈ b.tokens.head?, t.kind ≠ p.excluded := by
  cases b with
  | nil => simp [tokens]
  | word t rest =>
      simp only [tokens, List.head?_cons, Option.mem_some_iff, forall_eq']
      rcases hLeads with ⟨rfl, hOperand, -⟩ | ⟨rfl, hOperator, -⟩
      · rcases hOperand with ⟨hKind, -⟩ | hKind <;> simp [hKind, Phase.excluded]
      · rcases hOperator with ⟨hKind, -⟩ | hKind <;> simp [hKind, Phase.excluded]
  | group opening closing inside rest =>
      have hKind : opening.kind = .openParen := hProper.1
      cases p <;> simp [tokens, hKind, Phase.excluded]
  | call name opening closing inside rest =>
      obtain ⟨-, hKind, -⟩ := exists_function hProper.1
      obtain ⟨rfl, -⟩ := hLeads
      simp [tokens, hKind, Phase.excluded]

/-- No name follows a number with which a sequence starts. -/
theorem kind_second_of_leads {b : Bracketed} (hProper : b.Proper) {q : Phase}
    (hLeads : b.Leads .operand q) {t u : Token} {more : List Token}
    (hTokens : b.tokens = t :: u :: more) (hNumber : t.kind = .number) : u.kind ≠ .name := by
  cases b with
  | nil => cases hTokens
  | word first rest =>
      obtain ⟨rfl, hRest⟩ := List.cons.inj hTokens
      rcases hLeads with ⟨-, -, hLeads⟩ | ⟨hPhase, -⟩
      · exact kind_head?_of_leads hProper.2.2 hLeads u (by rw [hRest]; rfl)
      · cases hPhase
  | group opening closing inside rest =>
      obtain ⟨rfl, -⟩ := List.cons.inj hTokens
      have hKind : opening.kind = .openParen := hProper.1
      simp [hKind] at hNumber
  | call name opening closing inside rest =>
      obtain ⟨rfl, -⟩ := List.cons.inj hTokens
      obtain ⟨-, hKind, -⟩ := exists_function hProper.1
      simp [hKind] at hNumber

/-- **What is read leads from operand to operator**, its parentheses matched. -/
theorem exists_leads_of_parse {source : List Char} {e : Expr} (hRead : Expr.parse source = .ok e) :
    ∃ b : Bracketed, Token.ofSource? source = .ok b.tokens ∧ b.Proper ∧
      b.Leads .operand .operator := by
  obtain ⟨-, b, hTokens, hAcceptable⟩ := Expr.exists_parse_iff.1 ⟨e, hRead⟩
  exact ⟨b, hTokens, hAcceptable.proper,
    (skeleton_iff_leads hAcceptable.proper hAcceptable.commas).1 hAcceptable.skeleton⟩

end Bracketed

namespace Expr

/-- No expression starts with a sign. -/
theorem parse_sign_ne_ok {sign : Char} {rest : List Char} {e : Expr}
    (hSign : Kind.ofChar? sign = some .operator) : parse (sign :: rest) ≠ .ok e := by
  intro hRead
  obtain ⟨b, hTokens, hProper, hLeads⟩ := Bracketed.exists_leads_of_parse hRead
  obtain ⟨t, more, hSplit, hKind⟩ := exists_first_token hTokens
  have hFirst := Bracketed.kind_head?_of_leads hProper hLeads t (by rw [hSplit]; rfl)
  exact hFirst (Option.some.inj (hKind.symm.trans hSign))

/-- No expression starts with a number directly followed by a letter. -/
theorem parse_mark_ne_ok {digits power : List Char} {mark : Char} {d : Decimal} {e : Expr}
    (hSpells : Spells digits d) (hMark : mark.isAlpha) :
    parse (digits ++ mark :: power) ≠ .ok e := by
  intro hRead
  have hName := Kind.ofChar?_of_isAlpha hMark
  obtain ⟨hSome, hDigits⟩ := hSpells.ofKind
  obtain ⟨b, hTokens, hProper, hLeads⟩ := Bracketed.exists_leads_of_parse hRead
  obtain ⟨t, u, more, hSplit, hNumber, hKind⟩ :=
    exists_second_token hSome hDigits rfl (by simp [hName]) hTokens
  have hSecond := Bracketed.kind_second_of_leads hProper hLeads hSplit hNumber
  exact hSecond (Option.some.inj (hKind.symm.trans hName))

end Expr

/-! ## The two readings of an entry -/

namespace Prompt

/-- The number that an entry stands for as an expression without variables. -/
def calculated? (entry : List Char) : Option Float :=
  (Expr.parse entry).toOption.bind fun e => e.value.toOption

/-- The entry is a run of digits with at most one point, and has a digit. -/
def IsNumeral (entry : List Char) : Prop :=
  (∀ c ∈ entry, c.isDigit ∨ c = '.') ∧ entry.count '.' ≤ 1 ∧ ∃ c ∈ entry, c.isDigit

-- The members of the entry are looked through, not all characters there are.
instance (entry : List Char) : Decidable (IsNumeral entry) :=
  haveI := List.decidableBAll (fun c : Char => c.isDigit = true ∨ c = '.') entry
  haveI := List.decidableBEx (fun c : Char => c.isDigit = true) entry
  inferInstanceAs (Decidable (_ ∧ _ ∧ _))

theorem value?_eq_or (line : List Char) :
    value? line = (literal? (Text.trim line)).or (calculated? (Text.trim line)) := by
  rw [value?, calculated?]
  cases literal? (Text.trim line) with
  | some value => rfl
  | none => cases Expr.parse (Text.trim line) <;> rfl

/-- Numerals are the runs of digits and at most one point that have a digit. -/
theorem exists_spells_iff_isNumeral {s : List Char} : (∃ d, Spells s d) ↔ IsNumeral s := by
  constructor
  · rintro ⟨d, hSpells⟩
    obtain ⟨-, hKind⟩ := hSpells.ofKind
    exact ⟨fun c hc => Kind.of_ofChar? (hKind c hc), (exists_spells_iff hKind).1 ⟨d, hSpells⟩⟩
  · rintro ⟨hChars, hNumeral⟩
    refine (exists_spells_iff fun c hc => ?_).2 hNumeral
    rcases hChars c hc with hDigit | rfl
    · exact Kind.ofChar?_of_isDigit hDigit
    · exact Kind.ofChar?_point

section

variable {s : List Char} {v w : Float}

theorem exists_of_calculated? (hValue : calculated? s = some w) :
    ∃ e, Expr.parse s = .ok e ∧ e.value.toOption = some w := by
  obtain ⟨e, hRead, hValue⟩ := Option.bind_eq_some_iff.1 hValue
  refine ⟨e, ?_, hValue⟩
  cases hParse : Expr.parse s with
  | error err => simp [hParse, Except.toOption] at hRead
  | ok e' =>
      rw [hParse] at hRead
      cases hRead
      rfl

/-- A numeral is calculated to the number it spells. -/
theorem calculated?_of_spells {d : Decimal} (hSpells : Spells s d) :
    calculated? s = some (ofPattern false d.pattern) := by
  have hKind := hSpells.ofKind.2
  have hRead := Expr.parse_word (.number hSpells) fun c hc =>
    Kind.noParen_of_ofChar? (hKind c hc) rfl
  rw [calculated?, hRead]
  rfl

/-- A name that is no constant is bound to nothing. -/
theorem calculated?_of_name (hSome : s ≠ []) (hLetters : ∀ c ∈ s, c.isAlpha)
    (hNone : constant? (String.ofList s) = none) : calculated? s = none := by
  have hRead := Expr.parse_word (.name hSome hLetters) fun c hc =>
    Expr.noParen_of_isAlpha (hLetters c hc)
  have hAsks : (∅ : Bindings).resolve (String.ofList s) = .ask (String.ofList s) .done :=
    Bindings.resolve_of_unbound hNone (Bindings.get?_empty _)
  have hValue : (Expr.var (String.ofList s)).value =
      .error (.undefinedVariable (String.ofList s)) := by
    rw [Expr.value, Expr.eval, Evaluation.ofVariable, hAsks]
    rfl
  rw [calculated?, hRead, named_eq, hNone]
  show (Expr.var (String.ofList s)).value.toOption = none
  rw [hValue]
  rfl

/-- Only numerals can be read in both ways. -/
theorem exists_spells_of_readings (hLiteral : literal? s = some v)
    (hValue : calculated? s = some w) : ∃ d, Spells s d := by
  obtain ⟨e, hRead, -⟩ := exists_of_calculated? hValue
  cases form_of_literal? hLiteral with
  | signed hSign =>
      refine absurd hRead (Expr.parse_sign_ne_ok ?_)
      rcases hSign with rfl | rfl <;> decide
  | word hSome hLetters hNone =>
      rw [calculated?_of_name hSome hLetters hNone] at hValue
      cases hValue
  | scaled hSpells hMark => exact absurd hRead (Expr.parse_mark_ne_ok hSpells hMark)
  | numeral hSpells => exact ⟨_, hSpells⟩

/-- Where both readings succeed they give the same number. -/
theorem eq_of_readings (hLiteral : literal? s = some v) (hValue : calculated? s = some w) :
    v = w := by
  obtain ⟨d, hSpells⟩ := exists_spells_of_readings hLiteral hValue
  rw [literal?_of_spells hSpells] at hLiteral
  rw [calculated?_of_spells hSpells] at hValue
  exact Option.some.inj (hLiteral.symm.trans hValue)

end

/-- **The entries that can be read in both ways** are the numerals. -/
theorem isNumeral_iff_readings {s : List Char} :
    (literal? s).isSome ∧ (calculated? s).isSome ↔ IsNumeral s := by
  rw [← exists_spells_iff_isNumeral]
  constructor
  · rintro ⟨hLiteral, hValue⟩
    obtain ⟨v, hLiteral⟩ := Option.isSome_iff_exists.1 hLiteral
    obtain ⟨w, hValue⟩ := Option.isSome_iff_exists.1 hValue
    exact exists_spells_of_readings hLiteral hValue
  · rintro ⟨d, hSpells⟩
    rw [literal?_of_spells hSpells, calculated?_of_spells hSpells]
    exact ⟨rfl, rfl⟩

/-- Readings that agree can be tried in either order. -/
private theorem or_comm_of_agree {a b : Option Float} (hAgree : ∀ v ∈ a, ∀ w ∈ b, v = w) :
    a.or b = b.or a := by
  cases a with
  | none => cases b <;> rfl
  | some v =>
      cases b with
      | none => rfl
      | some w => rw [hAgree v rfl w rfl]

/-- **The two readings of a line never disagree**: where its entry is a literal
and an expression with a value, the numbers are the same, so the order in which
the readings are tried does not matter. The entries that can be read in both
ways are the runs of digits with at most one point and at least one digit. -/
theorem readings_agree (line : List Char) :
    (∀ v w, literal? (Text.trim line) = some v → calculated? (Text.trim line) = some w → v = w) ∧
      value? line = (literal? (Text.trim line)).or (calculated? (Text.trim line)) ∧
      value? line = (calculated? (Text.trim line)).or (literal? (Text.trim line)) ∧
      ((literal? (Text.trim line)).isSome ∧ (calculated? (Text.trim line)).isSome ↔
        IsNumeral (Text.trim line)) := by
  have hOrder : (literal? (Text.trim line)).or (calculated? (Text.trim line)) =
      (calculated? (Text.trim line)).or (literal? (Text.trim line)) :=
    or_comm_of_agree fun _ hLiteral _ hValue => eq_of_readings hLiteral hValue
  have hFirst := value?_eq_or line
  exact ⟨fun _ _ => eq_of_readings, hFirst, hFirst.trans hOrder, isNumeral_iff_readings⟩

/-- `2.50` between blanks is read in both ways, as the same number. -/
theorem readings_agree_padded :
    let line := " 2.50\t".toList
    ∃ v, literal? (Text.trim line) = some v ∧ calculated? (Text.trim line) = some v ∧
      value? line = some v := by
  intro line
  obtain ⟨hAgree, hFirst, -, hBoth⟩ := readings_agree line
  have hNumeral : IsNumeral (Text.trim line) := by decide
  obtain ⟨hLiteral, hValue⟩ := hBoth.2 hNumeral
  obtain ⟨v, hLiteral⟩ := Option.isSome_iff_exists.1 hLiteral
  obtain ⟨w, hValue⟩ := Option.isSome_iff_exists.1 hValue
  obtain rfl := hAgree v w hLiteral hValue
  exact ⟨v, hLiteral, hValue, by rw [hFirst, hLiteral]; rfl⟩

end Prompt

end Fluxion
