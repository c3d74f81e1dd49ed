import Fluxion.Proofs.Lexing

/-!
# Tokens lie side by side

The regions of the tokens of a source leave nothing out: the first starts at
the first byte, each other one where the one before it stops. So the region of
a token is known from the characters in front of it, whatever these are, and
the region of a stray character is too. `Span.Marks` is that knowledge, a
region together with the text it cuts out of a source between two characters.

## Main results

* `Span.Marks.unique` — a region cuts out one text at most.
* `Token.marks_of_append` — the region of a token cuts out its characters.
* `Token.exists_from?_iff` — the texts that have tokens.
* `Token.stray_of_ofSource?` — a source without tokens is refused for its first
  character outside the alphabet, at the region of that character.
-/

namespace Fluxion

open Piece

/-! ## Bytes -/

namespace Piece

@[simp] theorem byteLength_nil : byteLength [] = 0 := rfl

@[simp] theorem byteLength_append (s t : List Char) :
    byteLength (s ++ t) = byteLength s + byteLength t := by
  simp [byteLength]

@[simp] theorem byteLength_singleton (c : Char) : byteLength [c] = c.utf8Size := by
  simp [byteLength]

theorem byteLength_pos {s : List Char} (hSome : s ≠ []) : 0 < byteLength s := by
  obtain ⟨c, rest, rfl⟩ := List.exists_cons_of_ne_nil hSome
  have hFirst := c.utf8Size_pos
  rw [← List.singleton_append, byteLength_append, byteLength_singleton]
  omega

/-- Two beginnings of one text that take the same number of bytes are the
same. -/
theorem eq_of_byteLength_eq {s t s' t' : List Char} (hEq : s ++ t = s' ++ t')
    (hBytes : byteLength s = byteLength s') : s = s' := by
  rcases List.append_eq_append_iff.1 hEq with ⟨more, rfl, -⟩ | ⟨more, rfl, -⟩
  · rw [byteLength_append] at hBytes
    by_contra hMore
    have := byteLength_pos (s := more) fun h => hMore (by simp [h])
    omega
  · rw [byteLength_append] at hBytes
    by_contra hMore
    have := byteLength_pos (s := more) fun h => hMore (by simp [h])
    omega

end Piece

/-! ## Regions of a source -/

/-- The region lies in the source, between characters, and cuts `text` out of
it; `rest` is what follows. -/
def Span.Marks (span : Span) (source text rest : List Char) : Prop :=
  ∃ front, source = front ++ (text ++ rest) ∧
    span = ⟨byteLength front, byteLength front + byteLength text⟩

/-- **A region cuts out one text at most.** -/
theorem Span.Marks.unique {span : Span} {source text rest text' rest' : List Char}
    (hMarks : span.Marks source text rest) (hMarks' : span.Marks source text' rest') :
    text = text' ∧ rest = rest' := by
  obtain ⟨front, rfl, rfl⟩ := hMarks
  obtain ⟨front', hEq, hSpan⟩ := hMarks'
  rw [Span.mk.injEq] at hSpan
  obtain rfl := eq_of_byteLength_eq hEq hSpan.1
  have hBehind := List.append_cancel_left hEq
  obtain rfl := eq_of_byteLength_eq hBehind (Nat.add_left_cancel hSpan.2)
  exact ⟨rfl, List.append_cancel_left hBehind⟩

/-- A region that is not empty cuts out something. -/
theorem Span.Marks.start_lt_stop {span : Span} {source text rest : List Char}
    (hMarks : span.Marks source text rest) (hSome : text ≠ []) : span.start < span.stop := by
  obtain ⟨front, -, rfl⟩ := hMarks
  exact Nat.lt_add_of_pos_right (byteLength_pos hSome)

namespace Token

/-! ## The alphabet -/

/-- A character that sources may have: a digit, a letter, a point, an operator
character, a parenthesis or a comma. -/
def InAlphabet (c : Char) : Prop :=
  c.isDigit ∨ c.isAlpha ∨ c ∈ ['.', '+', '-', '*', '/', '^', '(', ')', ',']

/-- The characters of the alphabet are those that have a class. -/
theorem isSome_ofChar?_iff {c : Char} : (Kind.ofChar? c).isSome ↔ InAlphabet c := by
  constructor
  · intro hSome
    obtain ⟨kind, hKind⟩ := Option.isSome_iff_exists.1 hSome
    have hClass := Kind.of_ofChar? hKind
    cases kind with
    | number =>
        rcases hClass with hDigit | rfl
        · exact .inl hDigit
        · exact .inr (.inr (by decide))
    | operator =>
        obtain ⟨op, rfl⟩ := hClass
        exact .inr (.inr (by cases op <;> decide))
    | name => exact .inr (.inl hClass)
    | openParen | closeParen | comma => exact .inr (.inr (by rw [show c = _ from hClass]; decide))
  · rintro (hDigit | hAlpha | hSign)
    · rw [Kind.ofChar?_of_isDigit hDigit]
      rfl
    · rw [Kind.ofChar?_of_isAlpha hAlpha]
      rfl
    · simp only [List.mem_cons, List.not_mem_nil, or_false] at hSign
      rcases hSign with rfl | rfl | rfl | rfl | rfl | rfl | rfl | rfl | rfl <;> rfl

/-! ## Cutting, piece by piece -/

/-- The tokens lie side by side from byte `start` on. -/
def Tile (start : Nat) : List Token → Prop
  | [] => True
  | t :: rest =>
    t.span = ⟨start, start + byteLength t.lexeme⟩ ∧ Tile (start + byteLength t.lexeme) rest

/-- The refusal of the first character outside the alphabet, in a text that
starts at byte `start`. -/
def Stray (start : Nat) (s : List Char) (err : ParseError) : Prop :=
  ∃ front c back, s = front ++ c :: back ∧ (∀ d ∈ front, InAlphabet d) ∧ ¬ InAlphabet c ∧
    err = ⟨⟨start + byteLength front, start + byteLength front + c.utf8Size⟩, .invalidCharacter c⟩

/-- What comes of cutting a text: tokens side by side if all of it is in the
alphabet, and otherwise the refusal of the first character that is not. -/
def Cut (start : Nat) (s : List Char) : Except ParseError (List Token) → Prop
  | .ok ts => Tile start ts ∧ ∀ c ∈ s, InAlphabet c
  | .error err => Stray start s err

theorem Stray.behind {run s : List Char} {start : Nat} {err : ParseError}
    (hRun : ∀ c ∈ run, InAlphabet c) (hStray : Stray (start + byteLength run) s err) :
    Stray start (run ++ s) err := by
  obtain ⟨front, c, back, rfl, hFront, hc, rfl⟩ := hStray
  refine ⟨run ++ front, c, back, by simp, ?_, hc, by simp [Nat.add_assoc]⟩
  exact List.forall_mem_append.2 ⟨hRun, hFront⟩

/-- Run by run: a run is a token if its characters have a class, and otherwise
it is a single character. -/
private theorem cut_place {runs : List (List Char)} {start : Nat} (hSome : [] ∉ runs)
    (hChain : ∀ run ∈ runs, run.IsChain fun x y => joins x y) :
    Cut start runs.flatten ((place start runs).mapM token?) := by
  induction runs generalizing start with
  | nil => exact ⟨trivial, by simp⟩
  | cons run runs ih =>
      rw [List.mem_cons, not_or] at hSome
      rw [List.forall_mem_cons] at hChain
      obtain ⟨c, rest, rfl⟩ := List.exists_cons_of_ne_nil (Ne.symm hSome.1)
      rw [List.flatten_cons]
      cases hc : Kind.ofChar? c with
      | none =>
          -- nothing joins a stray character
          obtain rfl : rest = [] := by
            cases rest with
            | nil => rfl
            | cons d rest =>
                have hJoins := (List.isChain_cons_cons.1 hChain.1).1
                rw [joins, hc] at hJoins
                cases hJoins
          simp only [place, ofRun?, hc, List.head?_cons, Option.map_some, Option.toList_some,
            List.cons_append, List.nil_append, List.mapM_cons, token?]
          have hOutside : ¬ InAlphabet c := by simp [← isSome_ofChar?_iff, hc]
          exact ⟨[], c, runs.flatten, rfl, by simp, hOutside, by simp⟩
      | some kind =>
          have hRun : ∀ d ∈ c :: rest, InAlphabet d := by
            intro d hd
            rw [← isSome_ofChar?_iff, kind_of_isChain hChain.1 hc d hd]
            rfl
          have hRest : Cut (start + byteLength (c :: rest)) runs.flatten _ := ih hSome.2 hChain.2
          simp only [place, ofRun?, hc, List.head?_cons, Option.map_some, Option.toList_some,
            List.cons_append, List.nil_append, List.mapM_cons, token?]
          generalize (place (start + byteLength (c :: rest)) runs).mapM token? = cut at hRest ⊢
          cases cut with
          | error err => exact Stray.behind hRun hRest
          | ok ts =>
              exact ⟨⟨rfl, hRest.1⟩, List.forall_mem_append.2 ⟨hRun, hRest.2⟩⟩

/-- **What comes of cutting a text.** -/
theorem cut_from? (start : Nat) (s : List Char) : Cut start s (from? start s) := by
  have hCut : Cut start (runsOf s).flatten (from? start s) :=
    cut_place (List.nil_notMem_splitBy joins s) fun _ => List.isChain_of_mem_splitBy
  have hFlatten : (runsOf s).flatten = s := List.flatten_splitBy _ _
  rwa [hFlatten] at hCut

/-- A text has tokens if and only if all of it is in the alphabet. -/
theorem exists_from?_iff (start : Nat) (s : List Char) :
    (∃ ts, from? start s = .ok ts) ↔ ∀ c ∈ s, InAlphabet c := by
  have hCut := cut_from? start s
  generalize from? start s = cut at hCut ⊢
  cases cut with
  | ok ts => exact ⟨fun _ => hCut.2, fun _ => ⟨ts, rfl⟩⟩
  | error err =>
      obtain ⟨front, c, back, rfl, -, hOutside, -⟩ := hCut
      constructor
      · rintro ⟨ts, hTokens⟩
        cases hTokens
      · intro hAlphabet
        exact absurd (hAlphabet c (by simp)) hOutside

/-! ## Sources -/

private theorem span_of_tile {before behind : List Token} {t : Token} {start : Nat}
    (hTile : Tile start (before ++ t :: behind)) :
    t.span = ⟨start + byteLength (before.flatMap lexeme),
      start + byteLength (before.flatMap lexeme) + byteLength t.lexeme⟩ := by
  induction before generalizing start with
  | nil => simpa using hTile.1
  | cons first before ih =>
      rw [ih hTile.2, List.flatMap_cons, byteLength_append, Nat.add_assoc start]

/-- **The region of a token cuts out its characters**, and the characters of
the tokens behind it follow. -/
theorem marks_of_append {source : List Char} {before behind : List Token} {t : Token}
    (hTokens : ofSource? source = .ok (before ++ t :: behind)) :
    t.span.Marks source t.lexeme (behind.flatMap lexeme) := by
  have hCut := cut_from? 0 source
  rw [← ofSource?_eq, hTokens] at hCut
  refine ⟨before.flatMap lexeme, ?_, ?_⟩
  · rw [← flatMap_lexeme hTokens, List.flatMap_append, List.flatMap_cons]
  · rw [span_of_tile hCut.1, Nat.zero_add]

/-- **A source without tokens is refused for its first character outside the
alphabet.** -/
theorem stray_of_ofSource? {source : List Char} {err : ParseError}
    (hTokens : ofSource? source = .error err) : Stray 0 source err := by
  have hCut := cut_from? 0 source
  rwa [← ofSource?_eq, hTokens] at hCut

end Token

end Fluxion
