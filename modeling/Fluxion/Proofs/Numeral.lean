import Fluxion.Proofs.Grammar
import Fluxion.Proofs.Lexing

/-!
# Numerals in the grammar and numerals that are read

## Main results

* `Number.numeral?_eq_some_iff` — the numerals that are read are those of the
  grammar, with the same decimals.
* `Number.exists_spells_iff` — which digits and points are numerals.
* `Number.literal?_eq` — among digits and points a literal is a numeral.
* `Number.form_of_literal?` — what every literal looks like: a word, a numeral, one
  with an exponent, or something behind a sign.
-/

namespace Fluxion.Grammar

open Token

/-- A numeral is a nonempty run of the characters of numbers. -/
theorem Spells.ofKind {s : List Char} {d : Number.Decimal} (hSpells : Spells s d) :
    s ≠ [] ∧ ∀ c ∈ s, Kind.ofChar? c = some .number := by
  cases hSpells with
  | whole hSome hDigits => exact ⟨hSome, fun c hc => Kind.ofChar?_of_isDigit (hDigits c hc)⟩
  | point hSome hDigits =>
      refine ⟨by simp, fun c hc => ?_⟩
      simp only [List.mem_append, List.mem_cons] at hc hDigits
      rcases hc with hc | rfl | hc
      · exact Kind.ofChar?_of_isDigit (hDigits c (.inl hc))
      · exact Kind.ofChar?_point
      · exact Kind.ofChar?_of_isDigit (hDigits c (.inr hc))

end Fluxion.Grammar

namespace Fluxion.Number

open Grammar Token

/-! ## Numerals -/

/-- A list is divided behind its front part by what holds of the front part only
and not of the first thing behind it. -/
theorem takeWhile_dropWhile_append {α : Type} {p : α → Bool} {front rest : List α}
    (hFront : ∀ a ∈ front, p a = true) (hRest : ∀ a ∈ rest.head?, p a = false) :
    (front ++ rest).takeWhile p = front ∧ (front ++ rest).dropWhile p = rest := by
  rw [List.takeWhile_append_of_pos hFront, List.dropWhile_append_of_pos hFront]
  cases rest with
  | nil => exact ⟨List.append_nil front, rfl⟩
  | cons a rest => simp [hRest a (by simp)]

private theorem numeral?_of_spells {s : List Char} {d : Decimal} (hSpells : Spells s d) :
    numeral? s = some d := by
  cases hSpells with
  | whole hSome hDigits =>
      have hEnd : ∀ c ∈ ([] : List Char).head?, c.isDigit = false := by simp
      obtain ⟨hTake, hDrop⟩ := takeWhile_dropWhile_append hDigits hEnd
      rw [List.append_nil] at hTake hDrop
      simp [numeral?, hTake, hDrop, hSome]
  | @point digits places hSome hDigits =>
      have hWhole : ∀ c ∈ digits, c.isDigit := fun c hc => hDigits c (by simp [hc])
      have hPlaces : places.all Char.isDigit = true := by
        rw [List.all_eq_true]
        exact fun c hc => hDigits c (by simp [hc])
      have hPoint : ∀ c ∈ ('.' :: places).head?, c.isDigit = false := by simp [Char.isDigit]
      obtain ⟨hTake, hDrop⟩ := takeWhile_dropWhile_append hWhole hPoint
      have hNonempty : (digits ++ places).isEmpty = false := by simpa using hSome
      simp only [numeral?, hTake, hDrop, hPlaces, hNonempty]
      rfl

private theorem spells_of_numeral? {s : List Char} {d : Decimal} (hNumeral : numeral? s = some d) :
    Spells s d := by
  have hSplit : s = s.takeWhile Char.isDigit ++ s.dropWhile Char.isDigit :=
    List.takeWhile_append_dropWhile.symm
  have hWhole : ∀ c ∈ s.takeWhile Char.isDigit, c.isDigit := fun c hc =>
    List.mem_takeWhile_imp hc
  simp only [numeral?] at hNumeral
  split at hNumeral
  · next hDrop =>
      split at hNumeral
      · cases hNumeral
      · next hSome =>
          cases hNumeral
          rw [hDrop, List.append_nil] at hSplit
          have hSpells := Spells.whole (by simpa using hSome) hWhole
          rw [← hSplit] at hSpells ⊢
          exact hSpells
  · next places hDrop =>
      split at hNumeral
      · next hPlaces =>
          cases hNumeral
          simp only [Bool.and_eq_true, List.all_eq_true, Bool.not_eq_true',
            List.isEmpty_eq_false_iff] at hPlaces
          have hSpells := Spells.point hPlaces.2 fun c hc =>
            (List.mem_append.1 hc).elim (hWhole c) (hPlaces.1 c)
          rw [← hDrop, ← hSplit] at hSpells
          exact hSpells
      · cases hNumeral
  · cases hNumeral

/-- **The numerals that are read are those of the grammar.** -/
theorem numeral?_eq_some_iff {s : List Char} {d : Decimal} :
    numeral? s = some d ↔ Spells s d :=
  ⟨spells_of_numeral?, numeral?_of_spells⟩

private theorem isDigit_or_point {s : List Char} (hKind : ∀ c ∈ s, Kind.ofChar? c = some .number)
    {c : Char} (hc : c ∈ s) : c.isDigit ∨ c = '.' :=
  Kind.of_ofChar? (hKind c hc)

private theorem count_point_of_isDigit {digits : List Char} (hDigits : ∀ c ∈ digits, c.isDigit) :
    digits.count '.' = 0 := by
  rw [List.count_eq_zero]
  intro hPoint
  exact absurd (hDigits '.' hPoint) (by decide)

/-- **Digits and points spell a number** if there is a digit and at most one
point among them. -/
theorem exists_spells_iff {s : List Char} (hKind : ∀ c ∈ s, Kind.ofChar? c = some .number) :
    (∃ d, Spells s d) ↔ s.count '.' ≤ 1 ∧ ∃ c ∈ s, c.isDigit := by
  constructor
  · rintro ⟨d, hSpells⟩
    cases hSpells with
    | whole hSome hDigits =>
        obtain ⟨c, hc⟩ := List.exists_mem_of_ne_nil _ hSome
        exact ⟨by simp [count_point_of_isDigit hDigits], c, hc, hDigits c hc⟩
    | @point digits places hSome hDigits =>
        obtain ⟨c, hc⟩ := List.exists_mem_of_ne_nil _ hSome
        have hCount := count_point_of_isDigit hDigits
        rw [List.count_append] at hCount
        refine ⟨?_, c, ?_, hDigits c hc⟩
        · rw [List.count_append, List.count_cons_self]
          omega
        · rw [List.mem_append] at hc ⊢
          exact hc.imp_right (List.mem_cons_of_mem _)
  · rintro ⟨hCount, c, hc, hDigit⟩
    by_cases hPoint : '.' ∈ s
    · obtain ⟨digits, places, rfl⟩ := List.append_of_mem hPoint
      rw [List.count_append, List.count_cons_self] at hCount
      have hNone : '.' ∉ digits ++ places := by
        rw [← List.count_eq_zero, List.count_append]
        omega
      have hMem {d : Char} (hd : d ∈ digits ++ places) : d ∈ digits ++ '.' :: places := by
        rw [List.mem_append] at hd ⊢
        exact hd.imp_right (List.mem_cons_of_mem _)
      refine ⟨_, .point (List.ne_nil_of_mem (a := c) ?_) fun d hd => ?_⟩
      · rw [List.mem_append, List.mem_cons] at hc
        rcases hc with hc | rfl | hc
        · exact List.mem_append_left _ hc
        · exact absurd hDigit (by decide)
        · exact List.mem_append_right _ hc
      · rcases isDigit_or_point hKind (hMem hd) with hDigit | rfl
        · exact hDigit
        · exact absurd hd hNone
    · refine ⟨_, .whole (List.ne_nil_of_mem hc) fun d hd => ?_⟩
      rcases isDigit_or_point hKind hd with hDigit | rfl
      · exact hDigit
      · exact absurd hd hPoint

/-! ## Literals made of digits and points -/

private theorem toLower_of_number {c : Char} (hc : Kind.ofChar? c = some .number) :
    c.toLower = c := by
  rw [Char.toLower, dif_neg]
  rintro ⟨hLower, hUpper⟩
  rcases Kind.of_ofChar? hc with hDigit | rfl
  · simp only [Char.isDigit, Bool.and_eq_true, decide_eq_true_eq] at hDigit
    simp only [UInt32.le_iff_toNat_le, Char.reduceVal, UInt32.reduceToNat, ge_iff_le]
      at hLower hUpper hDigit
    omega
  · exact absurd hLower (by decide)

/-- What is behind the sign of a literal, if it is made of digits and points, has
no room for an exponent and is no word. -/
private theorem literal?_of_splitSign {text body : List Char} {negative : Bool}
    (hSign : splitSign text = (negative, body))
    (hKind : ∀ c ∈ body, Kind.ofChar? c = some .number) :
    literal? text = (numeral? body).map fun d => ofPattern negative d.pattern := by
  have hLower : body.map Char.toLower = body :=
    (List.map_congr_left fun c hc => toLower_of_number (hKind c hc)).trans (List.map_id body)
  have hWord : ∀ c word, String.ofList body = String.ofList (c :: word) →
      Kind.ofChar? c = some .number := by
    intro c word hEq
    refine hKind c ?_
    rw [String.ofList_injective hEq]
    exact List.mem_cons_self
  have hMark : body.dropWhile (fun c => !(decide (c = 'e') || decide (c = 'E'))) = [] := by
    rw [List.dropWhile_eq_nil_iff]
    intro c hc
    have hLetter : ¬ (c = 'e' ∨ c = 'E') := by
      rintro (rfl | rfl)
      · exact absurd (hKind 'e' hc) (by decide)
      · exact absurd (hKind 'E' hc) (by decide)
    simpa using hLetter
  have hInf : ¬ (String.ofList body = "inf" ∨ String.ofList body = "infinity") := by
    rintro (hEq | hEq)
    · exact absurd (hWord 'i' ['n', 'f'] hEq) (by decide)
    · exact absurd (hWord 'i' ['n', 'f', 'i', 'n', 'i', 't', 'y'] hEq) (by decide)
  have hNan : String.ofList body ≠ "nan" := fun hEq =>
    absurd (hWord 'n' ['a', 'n'] hEq) (by decide)
  simp only [literal?, hSign, hLower, if_neg hInf, if_neg hNan, decimal?, hMark]

section

variable {s : List Char} (hKind : ∀ c ∈ s, Kind.ofChar? c = some .number)
include hKind

/-- **Among digits and points a literal is a numeral.** There is no room for a
sign, an exponent or a word. -/
theorem literal?_eq : literal? s = (numeral? s).map fun d => ofPattern false d.pattern := by
  refine literal?_of_splitSign ?_ hKind
  unfold splitSign
  split
  · exact absurd (hKind '-' List.mem_cons_self) (by decide)
  · exact absurd (hKind '+' List.mem_cons_self) (by decide)
  · rfl

/-- Behind a minus the same literal is negative. -/
theorem literal?_minus :
    literal? ('-' :: s) = (numeral? s).map fun d => ofPattern true d.pattern :=
  literal?_of_splitSign rfl hKind

end

section

variable {s : List Char} {d : Decimal} (hSpells : Spells s d)
include hSpells

theorem literal?_of_spells : literal? s = some (ofPattern false d.pattern) := by
  rw [literal?_eq hSpells.ofKind.2, numeral?_eq_some_iff.2 hSpells]
  rfl

theorem literal?_minus_of_spells : literal? ('-' :: s) = some (ofPattern true d.pattern) := by
  rw [literal?_minus hSpells.ofKind.2, numeral?_eq_some_iff.2 hSpells]
  rfl

end

/-! ## Literals of all sorts -/

/-- Only letters become letters in lower case. -/
private theorem isAlpha_of_toLower {c : Char} (hc : c.toLower.isAlpha) : c.isAlpha := by
  rw [Char.toLower] at hc
  split at hc
  · next hUpper =>
      simp only [Char.isAlpha, Char.isUpper, Bool.or_eq_true, decide_eq_true_eq]
      exact .inl hUpper
  · exact hc

/-- The words for what is not finite are names, in any case, and not those of
constants. -/
private theorem name_of_word {s : List Char}
    (hWord : String.ofList (s.map Char.toLower) ∈ ["inf", "infinity", "nan"]) :
    s ≠ [] ∧ (∀ c ∈ s, c.isAlpha) ∧ constant? (String.ofList s) = none := by
  have hLower : s.map Char.toLower ∈ ["inf", "infinity", "nan"].map String.toList := by
    rw [← String.toList_ofList (l := s.map Char.toLower)]
    exact List.mem_map_of_mem hWord
  have hLetters : ∀ word ∈ ["inf", "infinity", "nan"].map String.toList,
      word ≠ [] ∧ word.all Char.isAlpha := by decide
  obtain ⟨hSome, hAlpha⟩ := hLetters _ hLower
  rw [List.all_eq_true] at hAlpha
  refine ⟨fun hNil => hSome (by rw [hNil]; rfl), fun c hc => ?_, ?_⟩
  · exact isAlpha_of_toLower (hAlpha _ (List.mem_map_of_mem hc))
  · have hNot (name : String) (hName : name.toList.map Char.toLower ∉
        ["inf", "infinity", "nan"].map String.toList) : String.ofList s ≠ name := by
      rintro rfl
      rw [String.toList_ofList] at hName
      exact hName hLower
    exact constant?_eq_none_iff.2 ⟨hNot "pi" (by decide), hNot "e" (by decide)⟩

/-- What literals look like. -/
inductive LiteralForm : List Char → Prop
  /-- Something behind a sign. -/
  | signed {sign : Char} {rest : List Char} (hSign : sign = '-' ∨ sign = '+') :
      LiteralForm (sign :: rest)
  /-- A word for what is not finite, which is a name and no constant. -/
  | word {s : List Char} (hSome : s ≠ []) (hLetters : ∀ c ∈ s, c.isAlpha)
      (hNone : constant? (String.ofList s) = none) : LiteralForm s
  /-- A numeral with an exponent. -/
  | scaled {digits power : List Char} {mark : Char} {d : Decimal} (hSpells : Spells digits d)
      (hMark : mark.isAlpha) : LiteralForm (digits ++ mark :: power)
  /-- A numeral. -/
  | numeral {s : List Char} {d : Decimal} (hSpells : Spells s d) : LiteralForm s

private theorem form_of_decimal? {s : List Char} {d : Decimal} (hDecimal : decimal? s = some d) :
    LiteralForm s := by
  simp only [decimal?] at hDecimal
  split at hDecimal
  · exact .numeral (numeral?_eq_some_iff.1 hDecimal)
  · next mark power hMark =>
      obtain ⟨front, hFront, -⟩ := Option.bind_eq_some_iff.1 hDecimal
      have hStop := List.head?_dropWhile_not (fun c => !(decide (c = 'e') || decide (c = 'E'))) s
      rw [hMark] at hStop
      have hLetter : mark = 'e' ∨ mark = 'E' := by simpa [or_iff_not_imp_left] using hStop
      have hAlpha : mark.isAlpha := by rcases hLetter with rfl | rfl <;> decide
      have hForm : LiteralForm (_ ++ mark :: power) :=
        .scaled (numeral?_eq_some_iff.1 hFront) hAlpha
      rwa [← hMark, List.takeWhile_append_dropWhile] at hForm

/-- **Every literal has one of these forms.** -/
theorem form_of_literal? {s : List Char} {value : Float} (hLiteral : literal? s = some value) :
    LiteralForm s := by
  by_cases hSigned : ∃ sign rest, s = sign :: rest ∧ (sign = '-' ∨ sign = '+')
  · obtain ⟨sign, rest, rfl, hSign⟩ := hSigned
    exact .signed hSign
  have hUnsigned : splitSign s = (false, s) := by
    unfold splitSign
    split
    · exact absurd ⟨_, _, rfl, .inl rfl⟩ hSigned
    · exact absurd ⟨_, _, rfl, .inr rfl⟩ hSigned
    · rfl
  have hWord (hName : String.ofList (s.map Char.toLower) ∈ ["inf", "infinity", "nan"]) :
      LiteralForm s := by
    obtain ⟨hSome, hLetters, hNone⟩ := name_of_word hName
    exact .word hSome hLetters hNone
  simp only [literal?, hUnsigned] at hLiteral
  split at hLiteral
  · next hInf => exact hWord (by rcases hInf with hInf | hInf <;> simp [hInf])
  · split at hLiteral
    · next hNan => exact hWord (by simp [hNan])
    · obtain ⟨d, hDecimal, -⟩ := Option.map_eq_some_iff.1 hLiteral
      exact form_of_decimal? hDecimal

end Fluxion.Number
