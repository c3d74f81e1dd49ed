import Fluxion.Proofs.Depth

/-!
# Reading, writing and reading again

A source may place its parentheses in many ways and may spell a number in many
ways, and what is read from it is written in one. Reading that text gives the
same expression, but for two things. A number too large to be finite is read
as infinity, and infinity is written as a word that is read as a name. And an
expression may need more parentheses inside each other than its source had, if
those of the source did not enclose what they seemed to.

## Main results

* `Expr.exists_phrase_of_readable` — the text stands for the expression with a
  name for infinity.
* `Expr.reread_iff` — what was read from a source comes back from its own text
  if and only if its numbers are finite and the text does not nest too deeply;
  where the parentheses of the source were well placed, the numbers decide.
* `Expr.not_reread_overflow` — a source that does not come back.
-/

namespace Fluxion

/-- The node is no constant that is infinite or not a number. -/
def Node.IsFinite : Node → Prop
  | const value => value.isFinite = true
  | var _ | operation _ | call _ _ => True

namespace Expr

open Grammar Number Token

/-! ## Infinity as a name -/

mutual

/-- The expression with the word that is written for infinity read as the name
that it is. -/
def asWritten : Expr → Expr
  | const value => if value.isFinite then const value else var "inf"
  | var name => var name
  | binary op left right => binary op left.asWritten right.asWritten
  | call function arguments => call function (allAsWritten arguments)

/-- All expressions of a list as they are written. -/
def allAsWritten : List Expr → List Expr
  | [] => []
  | e :: rest => e.asWritten :: allAsWritten rest

end

private theorem needsParens_asWritten (op : Operator) (side : Side) (e : Expr) :
    needsParens op side e.asWritten = needsParens op side e := by
  cases e with
  | const value =>
      rw [asWritten]
      split <;> rfl
  | var | binary | call => rw [asWritten] <;> rfl

private theorem isFinite_ofPattern_iff {pattern : Nat} (hPattern : pattern ≤ infinityPattern) :
    (ofPattern false pattern).isFinite = true ↔ pattern < infinityPattern := by
  constructor
  · intro hFinite
    refine Nat.lt_of_le_of_ne hPattern fun hInfinite => ?_
    have hInfinity : (ofPattern false infinityPattern).isFinite = false := by decide +kernel
    rw [hInfinite, hInfinity] at hFinite
    cases hFinite
  · exact isFinite_ofPattern

mutual

/-- Written it looks the same. -/
theorem written_asWritten {e : Expr} (hReadable : e.Every Node.Readable) :
    e.asWritten.written = e.written := by
  match e with
  | const value =>
      obtain ⟨pattern, hPattern, rfl⟩ := (every_const value).1 hReadable
      rw [asWritten]
      split
      · rfl
      · next hInfinite =>
          have hEq : pattern = infinityPattern :=
            Nat.le_antisymm hPattern
              (Nat.not_lt.1 (mt (isFinite_ofPattern_iff hPattern).2 hInfinite))
          rw [hEq, written, written, constantText_infinity]
          rfl
  | var name => rfl
  | binary op left right =>
      obtain ⟨-, hLeft, hRight⟩ := (every_binary op left right).1 hReadable
      rw [asWritten, written, written, written_asWritten hLeft, written_asWritten hRight,
        needsParens_asWritten, needsParens_asWritten]
  | call function arguments =>
      obtain ⟨-, hArguments⟩ := (every_call function arguments).1 hReadable
      rw [asWritten, written, written, writtenAll_asWritten hArguments]

theorem writtenAll_asWritten {es : List Expr} (hReadable : ∀ e ∈ es, e.Every Node.Readable) :
    writtenAll (allAsWritten es) = writtenAll es := by
  match es with
  | [] => rfl
  | [e] =>
      rw [allAsWritten, allAsWritten, writtenAll, writtenAll,
        written_asWritten (hReadable e (by simp))]
  | e :: next :: rest =>
      obtain ⟨hFirst, hMore⟩ := List.forall_mem_cons.1 hReadable
      show e.asWritten.written ++ ',' :: writtenAll (allAsWritten (next :: rest)) = _
      rw [written_asWritten hFirst, writtenAll_asWritten hMore]
      rfl

end

mutual

theorem isPrintable_asWritten {e : Expr} (hReadable : e.Every Node.Readable) :
    e.asWritten.isPrintable = true := by
  match e with
  | const value =>
      rw [asWritten]
      split
      · next hFinite => exact hFinite
      · rfl
  | var name =>
      obtain ⟨hSome, hLetters, -⟩ := (every_var name).1 hReadable
      simpa [asWritten, isPrintable, hSome] using hLetters
  | binary op left right =>
      obtain ⟨-, hLeft, hRight⟩ := (every_binary op left right).1 hReadable
      rw [asWritten, isPrintable, isPrintable_asWritten hLeft, isPrintable_asWritten hRight]
      rfl
  | call function arguments =>
      obtain ⟨hFunction, hArguments⟩ := (every_call function arguments).1 hReadable
      rw [asWritten, isPrintable, arePrintable_asWritten hArguments, Bool.and_true]
      exact hFunction

theorem arePrintable_asWritten {es : List Expr} (hReadable : ∀ e ∈ es, e.Every Node.Readable) :
    arePrintable (allAsWritten es) = true := by
  match es with
  | [] => rfl
  | e :: rest =>
      obtain ⟨hFirst, hMore⟩ := List.forall_mem_cons.1 hReadable
      rw [allAsWritten, arePrintable, isPrintable_asWritten hFirst, arePrintable_asWritten hMore]
      rfl

end

mutual

/-- There is nothing to normalize. -/
theorem normal_asWritten {e : Expr} (hReadable : e.Every Node.Readable) :
    e.asWritten.normal = e.asWritten := by
  match e with
  | const value =>
      obtain ⟨pattern, hPattern, rfl⟩ := (every_const value).1 hReadable
      rw [asWritten]
      split
      · next hFinite =>
          have hBelow := (isFinite_ofPattern_iff hPattern).1 hFinite
          rw [normal, if_neg (by simp [ofPattern_lt_zero_iff hBelow])]
      · rfl
  | var name =>
      obtain ⟨-, -, hNone⟩ := (every_var name).1 hReadable
      rw [asWritten, normal, hNone]
  | binary op left right =>
      obtain ⟨-, hLeft, hRight⟩ := (every_binary op left right).1 hReadable
      rw [asWritten, normal, normal_asWritten hLeft, normal_asWritten hRight]
  | call function arguments =>
      obtain ⟨-, hArguments⟩ := (every_call function arguments).1 hReadable
      rw [asWritten, normal, normals_asWritten hArguments]

theorem normals_asWritten {es : List Expr} (hReadable : ∀ e ∈ es, e.Every Node.Readable) :
    normals (allAsWritten es) = allAsWritten es := by
  match es with
  | [] => rfl
  | e :: rest =>
      obtain ⟨hFirst, hMore⟩ := List.forall_mem_cons.1 hReadable
      rw [allAsWritten, normals, normal_asWritten hFirst, normals_asWritten hMore]

end

/-! ## Coming back -/

/-- The text of what can be read has tokens that are a phrase, but for what
the text makes of infinity. -/
theorem exists_phrase_of_readable {e : Expr} (hReadable : e.Every Node.Readable) :
    ∃ b t, from? 0 (toString e).toList = .ok b.tokens ∧ b.Proper ∧ Phrase .expr b [t] ∧
      (t == e.asWritten) = true := by
  have hText : (toString e).toList = e.written := String.toList_ofList
  obtain ⟨b, t, hTokens, hProper, hPhrase, hEq⟩ :=
    exists_phrase_written (isPrintable_asWritten hReadable)
  rw [written_asWritten hReadable, ← hText] at hTokens
  rw [normal_asWritten hReadable] at hEq
  exact ⟨b, t, hTokens, hProper, hPhrase, hEq⟩

mutual

/-- An expression that looks the same is equal exactly if infinity does not
occur. -/
theorem beq_iff_of_beq_asWritten {e t : Expr} (hEq : t.beq e.asWritten = true) :
    t.beq e = true ↔ e.Every Node.IsFinite := by
  match e with
  | const value =>
      rw [every_const, Node.IsFinite]
      by_cases hFinite : value.isFinite = true
      · rw [asWritten, if_pos hFinite] at hEq
        exact iff_of_true hEq hFinite
      · rw [asWritten, if_neg hFinite] at hEq
        refine iff_of_false (fun hValue => ?_) hFinite
        cases t with
        | const => cases hEq
        | var | binary | call => cases hValue
  | var name => exact iff_of_true hEq ((every_var name).2 trivial)
  | binary op left right =>
      cases t with
      | const | var | call => cases hEq
      | binary op' a b =>
          rw [asWritten, beq, Bool.and_eq_true, Bool.and_eq_true] at hEq
          obtain ⟨⟨hOp, hLeft⟩, hRight⟩ := hEq
          rw [beq, hOp, Bool.true_and, Bool.and_eq_true, beq_iff_of_beq_asWritten hLeft,
            beq_iff_of_beq_asWritten hRight, every_binary]
          exact (and_iff_right trivial).symm
  | call function arguments =>
      cases t with
      | const | var | binary => cases hEq
      | call function' others =>
          rw [asWritten, beq, Bool.and_eq_true] at hEq
          obtain ⟨hFunction, hArguments⟩ := hEq
          rw [beq, hFunction, Bool.true_and, beqAll_iff_of_beqAll_asWritten hArguments, every_call]
          exact (and_iff_right trivial).symm

theorem beqAll_iff_of_beqAll_asWritten {es ts : List Expr}
    (hEq : beqAll ts (allAsWritten es) = true) :
    beqAll ts es = true ↔ ∀ e ∈ es, e.Every Node.IsFinite := by
  match es with
  | [] => exact iff_of_true hEq (by simp)
  | e :: rest =>
      cases ts with
      | nil => cases hEq
      | cons t others =>
          rw [allAsWritten, beqAll, Bool.and_eq_true] at hEq
          obtain ⟨hFirst, hRest⟩ := hEq
          rw [beqAll, Bool.and_eq_true, beq_iff_of_beq_asWritten hFirst,
            beqAll_iff_of_beqAll_asWritten hRest, List.forall_mem_cons]

end

/-- The parentheses of what could be read lie at most nineteen deep. -/
theorem nesting_le_of_parse {source : List Char} {e : Expr} (hRead : parse source = .ok e) :
    nesting 0 source ≤ 19 := by
  obtain ⟨items, hItems, -⟩ := bind_eq_ok_iff.1 hRead
  obtain ⟨b, hProper, hTokens, hHeight, -⟩ := Bracketed.exists_of_itemsOf? hItems
  rw [Bracketed.nesting_source hTokens hProper]
  exact hHeight

/-- What is derived from a source is what is read from it, or the source nests too
deeply. -/
theorem parse_or_tooDeep {source : List Char} {e : Expr}
    (hDerives : Derives .expr source [e]) :
    parse source = .ok e ∨ maxNesting < nesting 0 source := by
  obtain ⟨b, hTokens, hProper, hPhrase⟩ := exists_phrase hDerives 0
  rw [Bracketed.nesting_source hTokens hProper]
  rcases Nat.lt_or_ge maxNesting b.height with hDeep | hHeight
  · exact .inr hDeep
  · exact .inl (parse_of_phrase hTokens hProper hPhrase hHeight)

/-- **What was read comes back from its own text** if and only if its numbers
are finite and the text does not nest too deeply. It does not nest more deeply
than a source it can be derived from. -/
theorem reread_iff {source : List Char} {e : Expr} (hRead : parse source = .ok e) :
    ((∃ t, parse (toString e).toList = .ok t ∧ (t == e) = true) ↔
      e.Every Node.IsFinite ∧ nesting 0 (toString e).toList ≤ 19) ∧
    (Derives .expr source [e] → nesting 0 (toString e).toList ≤ nesting 0 source) ∧
    nesting 0 source ≤ 19 := by
  have hReadable := readable_of_parse hRead
  obtain ⟨b, t, hTokens, hProper, hPhrase, hLooks⟩ := exists_phrase_of_readable hReadable
  have hHeight := Bracketed.nesting_source hTokens hProper
  have hEqual : (t == e) = true ↔ e.Every Node.IsFinite := beq_iff_of_beq_asWritten hLooks
  refine ⟨⟨?_, ?_⟩, nesting_written_le hReadable, nesting_le_of_parse hRead⟩
  · -- a text that was read again cannot have nested too deeply
    rintro ⟨t', hReread, hSame⟩
    have hNesting : nesting 0 (toString e).toList ≤ 19 := nesting_le_of_parse hReread
    rw [hHeight] at hNesting
    rw [parse_of_phrase hTokens hProper hPhrase hNesting] at hReread
    cases hReread
    exact ⟨hEqual.1 hSame, hHeight ▸ hNesting⟩
  · rintro ⟨hFinite, hNesting⟩
    rw [hHeight] at hNesting
    exact ⟨t, parse_of_phrase hTokens hProper hPhrase hNesting, hEqual.2 hFinite⟩

/-- `2*((x+y))` is written as `2*(x+y)` and comes back from that. -/
theorem reread_product :
    let source := "2*((x+y))".toList
    let two := const (ofPattern false (Decimal.pattern ⟨2, 0⟩))
    let e := binary .mul two (binary .add (var "x") (var "y"))
    parse source = .ok e ∧ toString e = "2*(x+y)" ∧
      (∃ t, parse (toString e).toList = .ok t ∧ (t == e) = true) ∧
      Derives .expr source [e] ∧ nesting 0 (toString e).toList ≤ nesting 0 source := by
  intro source two e
  have hText : toString e = "2*(x+y)" := by decide +kernel
  have hDigit : ∀ c ∈ ['2'], c.isDigit := by
    rw [List.forall_mem_singleton]
    decide
  have hTwo : Derives .atom ['2'] [two] := .number (.whole (by simp) hDigit)
  have hX : Derives .atom ['x'] [var "x"] := derives_letter (by decide) (by decide)
  have hY : Derives .atom ['y'] [var "y"] := derives_letter (by decide) (by decide)
  have hSum : Derives .expr "x+y".toList [binary .add (var "x") (var "y")] :=
    .operation .add (.term (.power (.atom hX))) (.power (.atom hY))
  have hGroup : Derives .atom "((x+y))".toList [binary .add (var "x") (var "y")] :=
    .group (.term (.power (.atom (.group hSum))))
  have hDerives : Derives .expr source [e] :=
    .term (.operation .mul (.power (.atom hTwo)) (.atom hGroup))
  have hRead : parse source = .ok e := by
    obtain ⟨b, hTokens, hProper, hPhrase⟩ := exists_phrase hDerives 0
    have hNesting : nesting 0 source ≤ 19 := by decide
    rw [Bracketed.nesting_source hTokens hProper] at hNesting
    exact parse_of_phrase hTokens hProper hPhrase hNesting
  have hFinite : e.Every Node.IsFinite := by
    have hTwoFinite : (ofPattern false (Decimal.pattern ⟨2, 0⟩)).isFinite = true := by
      decide +kernel
    simp [e, two, Node.IsFinite, hTwoFinite]
  have hReread := reread_iff hRead
  have hNesting := hReread.2.1 hDerives
  have hBack := hReread.1.2 ⟨hFinite, Nat.le_trans hNesting hReread.2.2⟩
  exact ⟨hRead, hText, hBack, hDerives, hNesting⟩

theorem parse_word {s : List Char} {e : Expr} (hDerives : Derives .atom s [e])
    (hPlain : ∀ c ∈ s, c ≠ '(' ∧ c ≠ ')') : parse s = .ok e := by
  refine (parse_or_tooDeep (.term (.power (.atom hDerives)))).resolve_right ?_
  rw [(Nests.of_noParen hPlain).nesting_eq]
  exact Nat.not_lt_zero _

/-- A one with 309 zeros is accepted as infinity, which is written as `inf`, and
that is a name. -/
theorem not_reread_overflow :
    let source := '1' :: List.replicate 309 '0'
    let e := const (ofPattern false infinityPattern)
    parse source = .ok e ∧ toString e = "inf" ∧
      ¬ ∃ t, parse (toString e).toList = .ok t ∧ (t == e) = true := by
  intro source e
  have hDigits : ∀ c ∈ source, c.isDigit := List.all_eq_true.1 (by decide +kernel)
  have hOverflow : Decimal.pattern ⟨ofDigits source, 0⟩ = infinityPattern := by decide +kernel
  have hNumeral : Derives .atom source [e] := by
    have hNumber := Derives.number (.whole (List.cons_ne_nil _ _) hDigits)
    rwa [hOverflow] at hNumber
  have hText : toString e = "inf" := congrArg String.ofList constantText_infinity
  have hLetters : ∀ c ∈ ['i', 'n', 'f'], c.isAlpha := List.all_eq_true.1 (by decide)
  have hName : Derives .atom ['i', 'n', 'f'] [var "inf"] := .name (by simp) hLetters
  refine ⟨parse_word hNumeral ?_, hText, ?_⟩
  · exact fun c hc => Kind.noParen_of_ofChar? (Kind.ofChar?_of_isDigit (hDigits c hc)) rfl
  · rintro ⟨t, hReread, hSame⟩
    have hInf : parse (toString e).toList = .ok (var "inf") := by
      rw [hText]
      exact parse_word hName fun c hc => noParen_of_isAlpha (hLetters c hc)
    rw [hInf] at hReread
    cases hReread
    cases hSame

end Expr

end Fluxion
