import Fluxion.Proofs.Tiling

/-!
# The longest words tile a source

A source is cut where neighbouring characters do not stay together. What comes
of it can be said without cutting. The tokens are written as their kinds are,
they lie side by side from the first byte to the last, and two neighbours of
one kind only occur where characters of that kind do not run together. There is
one such sequence at most, and it is the one that is found by taking the longest
word there is again and again, whichever way that word is looked for.

## Main results

* `ofSource?_eq_ok_iff` — the tokens of a source are its only tiling.
* `ofSource?_eq_error_iff` — a source is refused for its first character outside
  the alphabet.
* `scan_eq_from?` — taking the longest word again and again finds these tokens.
* `tokens_tile_source` — all of it, for every source.
-/

namespace Fluxion.Token

open Piece

/-! ## Words -/

/-- The characters of a class. -/
def Kind.InClass : Kind → Char → Prop
  | number, c => c.isDigit ∨ c = '.'
  | operator, c => c ∈ ['+', '-', '*', '/', '^']
  | name, c => c.isAlpha
  | openParen, c => c = '('
  | closeParen, c => c = ')'
  | comma, c => c = ','

/-- The texts that are words of a kind: some characters of its class, and just
one where they do not run together. -/
structure Kind.Matches (kind : Kind) (text : List Char) : Prop where
  nonempty : text ≠ []
  inClass : ∀ c ∈ text, kind.InClass c
  single : kind.runs = false → text.length = 1

theorem Kind.Matches.runs_or_single {kind : Kind} {text : List Char} (hWord : kind.Matches text) :
    kind.runs ∨ text.length = 1 := by
  cases hRuns : kind.runs with
  | false => exact .inr (hWord.single hRuns)
  | true => exact .inl rfl

theorem Kind.ofChar?_eq_some_iff {kind : Kind} {c : Char} :
    Kind.ofChar? c = some kind ↔ kind.InClass c := by
  constructor
  · intro hKind
    have hClass := Kind.of_ofChar? hKind
    cases kind with
    | operator =>
        obtain ⟨op, rfl⟩ := hClass
        cases op <;> simp [Kind.InClass, Operator.symbol]
    | number | name | openParen | closeParen | comma => exact hClass
  · intro hClass
    cases kind with
    | number =>
        rcases hClass with hDigit | rfl
        · exact Kind.ofChar?_of_isDigit hDigit
        · exact Kind.ofChar?_point
    | operator =>
        have hSymbol : c = '+' ∨ c = '-' ∨ c = '*' ∨ c = '/' ∨ c = '^' := by
          simpa [Kind.InClass] using hClass
        rcases hSymbol with rfl | rfl | rfl | rfl | rfl <;> decide
    | name => exact Kind.ofChar?_of_isAlpha hClass
    | openParen | closeParen | comma =>
        obtain rfl := hClass
        decide

theorem spelled_iff {t : Token} : t.Spelled ↔ t.kind.Matches t.lexeme := by
  constructor
  · rintro ⟨hSome, hKind, hSingle⟩
    exact ⟨hSome, fun c hc => Kind.ofChar?_eq_some_iff.1 (hKind c hc), hSingle⟩
  · rintro ⟨hSome, hClass, hSingle⟩
    exact ⟨hSome, fun c hc => Kind.ofChar?_eq_some_iff.2 (hClass c hc), hSingle⟩

/-! ## Tilings -/

/-- The regions lie side by side between two bytes. -/
def Consecutive (start : Nat) : List Span → Nat → Prop
  | [], stop => start = stop
  | span :: rest, stop => span.start = start ∧ Consecutive span.stop rest stop

/-- Two tokens may be neighbours: they are not two parts of one run. -/
def Apart (t u : Token) : Prop :=
  t.kind = u.kind → t.kind.runs = false

/-- The tokens are words of their kinds, each of them stands where its region
says, the regions fill the source from its first byte to its last, and no run is
cut in two. -/
structure Tiling (source : List Char) (ts : List Token) : Prop where
  isWord : ∀ t ∈ ts, t.kind.Matches t.lexeme
  apart : ts.IsChain Apart
  consecutive : Consecutive 0 (ts.map span) (byteLength source)
  cutsOut : ∀ t ∈ ts, ∃ rest, t.span.Marks source t.lexeme rest

/-- Tokens that lie side by side and cut out their characters spell the source,
and their regions are as long as their characters. -/
private theorem tile_of_consecutive {source front behind : List Char} {ts : List Token}
    (hSource : source = front ++ behind)
    (hConsecutive : Consecutive (byteLength front) (ts.map span) (byteLength source))
    (hCuts : ∀ t ∈ ts, ∃ rest, t.span.Marks source t.lexeme rest) :
    Tile (byteLength front) ts ∧ ts.flatMap lexeme = behind := by
  induction ts generalizing front behind with
  | nil =>
      have hEnd : byteLength front = byteLength source := hConsecutive
      rw [hSource, byteLength_append] at hEnd
      refine ⟨trivial, ?_⟩
      by_contra hSome
      have hMore := byteLength_pos (Ne.symm hSome)
      omega
  | cons t ts ih =>
      obtain ⟨hStart, hRest⟩ := hConsecutive
      rw [List.forall_mem_cons] at hCuts
      obtain ⟨⟨rest, front', hSource', hSpan⟩, hCutsRest⟩ := hCuts
      rw [hSpan] at hStart hRest
      -- the characters in front of the region are known from its start
      obtain rfl : front' = front := eq_of_byteLength_eq (hSource'.symm.trans hSource) hStart
      obtain rfl := List.append_cancel_left (hSource'.symm.trans hSource)
      rw [← byteLength_append] at hRest
      obtain ⟨hTile, hSpells⟩ := ih (by rw [hSource', List.append_assoc]) hRest hCutsRest
      rw [byteLength_append] at hTile
      exact ⟨⟨hSpan, hTile⟩, by rw [List.flatMap_cons, hSpells]⟩

/-- Tokens whose regions are as long as their characters lie side by side and
cut out their characters. -/
private theorem consecutive_of_tile {front : List Char} {ts : List Token}
    (hTile : Tile (byteLength front) ts) :
    Consecutive (byteLength front) (ts.map span) (byteLength (front ++ ts.flatMap lexeme)) ∧
      ∀ t ∈ ts, ∃ rest, t.span.Marks (front ++ ts.flatMap lexeme) t.lexeme rest := by
  induction ts generalizing front with
  | nil => exact ⟨by simp [Consecutive], by simp⟩
  | cons t ts ih =>
      obtain ⟨hSpan, hRest⟩ := hTile
      rw [← byteLength_append] at hRest
      obtain ⟨hConsecutive, hCuts⟩ := ih hRest
      rw [List.append_assoc] at hConsecutive hCuts
      rw [List.flatMap_cons, List.map_cons, List.forall_mem_cons]
      refine ⟨⟨by rw [hSpan], ?_⟩, ⟨_, front, rfl, hSpan⟩, hCuts⟩
      rwa [hSpan, ← byteLength_append]

/-- A tiling is a sequence of words that spells the source, with the regions
that the lengths of the words give. -/
theorem tiling_iff {source : List Char} {ts : List Token} :
    Tiling source ts ↔
      (∀ t ∈ ts, t.Spelled) ∧ ts.IsChain Apart ∧ Tile 0 ts ∧ ts.flatMap lexeme = source := by
  constructor
  · rintro ⟨hWords, hApart, hConsecutive, hCuts⟩
    obtain ⟨hTile, hSpells⟩ := tile_of_consecutive (List.nil_append source).symm hConsecutive hCuts
    exact ⟨fun t ht => spelled_iff.2 (hWords t ht), hApart, hTile, hSpells⟩
  · rintro ⟨hSpelled, hApart, hTile, rfl⟩
    have hTile' : Tile (byteLength []) ts := hTile
    obtain ⟨hConsecutive, hCuts⟩ := consecutive_of_tile hTile'
    exact ⟨fun t ht => spelled_iff.1 (hSpelled t ht), hApart, hConsecutive, hCuts⟩

/-! ## The tiling that cutting finds -/

section

variable {start : Nat} {ts : List Token}

/-- Runs that are words of kinds become the tokens of these kinds. -/
private theorem place_lexemes (hSpelled : ∀ t ∈ ts, t.Spelled) (hTile : Tile start ts) :
    (place start (ts.map lexeme)).mapM token? = .ok ts := by
  induction ts generalizing start with
  | nil => rfl
  | cons t ts ih =>
      rw [List.forall_mem_cons] at hSpelled
      obtain ⟨hSpan, hRest⟩ := hTile
      obtain ⟨c, rest, hLexeme⟩ := List.exists_cons_of_ne_nil hSpelled.1.nonempty
      have hFirst : Kind.ofChar? c = some t.kind := hSpelled.1.ofKind c (by simp [hLexeme])
      have hPiece : ofRun? t.lexeme t.span = some (.token t) := by
        rw [ofRun?, hLexeme, List.head?_cons, Option.map_some, hFirst, ← hLexeme]
      rw [List.map_cons, place, ← hSpan, hPiece, Option.toList_some, List.singleton_append,
        List.mapM_cons, ih hSpelled.2 hRest]
      rfl

/-- Characters of different classes do not stay together, and those of one class
only if it runs together. -/
private theorem joins_eq_false_iff {a b : Char} {kind kind' : Kind}
    (ha : Kind.ofChar? a = some kind) (hb : Kind.ofChar? b = some kind') :
    joins a b = false ↔ (kind = kind' → kind.runs = false) := by
  by_cases hSame : kind = kind'
  · subst hSame
    simp [joins_of_kind ha hb]
  · simp [joins, ha, hb, hSame, Ne.symm hSame]

/-- Runs cut at every place where neighbours do not stay together have neighbours
that may be neighbours. -/
private theorem apart_of_runsOf {s : List Char} (hSpelled : ∀ t ∈ ts, t.Spelled)
    (hRuns : ts.map lexeme = runsOf s) : ts.IsChain Apart := by
  have hEnds := List.isChain_getLast_head_splitBy joins s
  rw [← runsOf, ← hRuns, List.isChain_map] at hEnds
  refine hEnds.imp_of_mem_imp fun t u ht hu hJoins => ?_
  obtain ⟨hLeft, hRight, hApart⟩ := hJoins
  exact (joins_eq_false_iff ((hSpelled t ht).ofKind _ (List.getLast_mem hLeft))
    ((hSpelled u hu).ofKind _ (List.head_mem hRight))).1 hApart

/-- **Cutting finds the words** that spell a text, and there are no others. -/
theorem from?_eq_ok_iff {s : List Char} :
    from? start s = .ok ts ↔
      (∀ t ∈ ts, t.Spelled) ∧ ts.IsChain Apart ∧ Tile start ts ∧ ts.flatMap lexeme = s := by
  constructor
  · intro hTokens
    have hSpelled := spelled_of_mem hTokens
    have hCut := cut_from? start s
    rw [hTokens] at hCut
    exact ⟨hSpelled, apart_of_runsOf hSpelled (map_lexeme hTokens), hCut.1, flatMap_lexeme hTokens⟩
  · rintro ⟨hSpelled, hApart, hTile, rfl⟩
    have hRuns : runsOf (ts.flatMap lexeme) = ts.map lexeme := by
      refine List.splitBy_eq_iff.2 ⟨List.flatMap_def, ?_, ?_, ?_⟩
      · intro hEmpty
        obtain ⟨t, ht, hLexeme⟩ := List.mem_map.1 hEmpty
        exact (hSpelled t ht).nonempty hLexeme
      · intro run hRun
        obtain ⟨t, ht, rfl⟩ := List.mem_map.1 hRun
        exact isChain_joins (hSpelled t ht).ofKind (spelled_iff.1 (hSpelled t ht)).runs_or_single
      · rw [List.isChain_map]
        refine hApart.imp_of_mem_imp fun t u ht hu hSplit => ?_
        have hLeft := (hSpelled t ht).nonempty
        have hRight := (hSpelled u hu).nonempty
        exact ⟨hLeft, hRight, (joins_eq_false_iff
          ((hSpelled t ht).ofKind _ (List.getLast_mem hLeft))
          ((hSpelled u hu).ofKind _ (List.head_mem hRight))).2 hSplit⟩
    rw [from?, hRuns]
    exact place_lexemes hSpelled hTile

end

/-! ## The refusal -/

/-- Nothing of the alphabet stands in front of a first character outside of it. -/
private theorem eq_nil_of_outside {c c' : Char} {more back back' : List Char}
    (hEq : c :: back = more ++ c' :: back') (hMore : ∀ d ∈ more, InAlphabet d)
    (hc : ¬ InAlphabet c) : more = [] ∧ c = c' := by
  cases more with
  | nil => exact ⟨rfl, (List.cons.inj hEq).1⟩
  | cons d more =>
      obtain rfl : c = d := (List.cons.inj hEq).1
      exact absurd (hMore c (by simp)) hc

/-- There is one first character outside the alphabet at most. -/
theorem Stray.unique {start : Nat} {s : List Char} {err err' : ParseError}
    (hStray : Stray start s err) (hStray' : Stray start s err') : err = err' := by
  obtain ⟨front, c, back, rfl, hFront, hc, rfl⟩ := hStray
  obtain ⟨front', c', back', hEq, hFront', hc', rfl⟩ := hStray'
  rcases List.append_eq_append_iff.1 hEq with ⟨more, rfl, hMore⟩ | ⟨more, rfl, hMore⟩
  · obtain ⟨rfl, rfl⟩ := eq_nil_of_outside hMore (List.forall_mem_append.1 hFront').2 hc
    rw [List.append_nil]
  · obtain ⟨rfl, rfl⟩ := eq_nil_of_outside hMore (List.forall_mem_append.1 hFront).2 hc'
    rw [List.append_nil]

/-- **A text is refused** for its first character outside the alphabet. -/
theorem from?_eq_error_iff {start : Nat} {s : List Char} {err : ParseError} :
    from? start s = .error err ↔ Stray start s err := by
  have hCut := cut_from? start s
  cases hTokens : from? start s with
  | error err' =>
      rw [hTokens] at hCut
      refine ⟨?_, fun hStray => by rw [Stray.unique hCut hStray]⟩
      intro hErr
      cases hErr
      exact hCut
  | ok ts =>
      rw [hTokens] at hCut
      constructor
      · intro hErr
        cases hErr
      · rintro ⟨front, c, back, rfl, -, hc, -⟩
        exact absurd (hCut.2 c (by simp)) hc

/-! ## Taking the longest word -/

/-- A way to find the word that a text starts with: its kind, and how many
characters it has behind its first. -/
structure LongestMatch (next : Char → List Char → Option (Kind × Nat)) : Prop where
  isWord : ∀ {c rest kind more}, next c rest = some (kind, more) →
    more ≤ rest.length ∧ kind.Matches (c :: rest.take more)
  longest : ∀ {c rest kind more}, next c rest = some (kind, more) →
    ∀ (other : Kind) (text : List Char), text <+: c :: rest → other.Matches text →
      text.length ≤ more + 1
  no_word : ∀ {c rest}, next c rest = none →
    ∀ (kind : Kind) (text : List Char), text <+: c :: rest → ¬ kind.Matches text

/-- The words of a text that starts at byte `start`, found one by one. A
character that starts none is refused. -/
def scan (next : Char → List Char → Option (Kind × Nat)) (start : Nat) :
    List Char → Except ParseError (List Token)
  | [] => .ok []
  | c :: rest =>
    match next c rest with
    | some (kind, more) => do
      let lexeme := c :: rest.take more
      let following ← scan next (start + byteLength lexeme) (rest.drop more)
      return ⟨kind, lexeme, ⟨start, start + byteLength lexeme⟩⟩ :: following
    | none => .error ⟨⟨start, start + c.utf8Size⟩, .invalidCharacter c⟩
termination_by s => s.length
decreasing_by simp only [List.length_drop, List.length_cons]; omega

/-- The class of the first character, and as many characters of that class as
there are. -/
def munch (c : Char) (rest : List Char) : Option (Kind × Nat) :=
  (Kind.ofChar? c).map fun kind =>
    (kind, if kind.runs then (rest.takeWhile (Kind.ofChar? · == some kind)).length else 0)

/-- A word in front of a text is of the class of the first character. -/
private theorem exists_cons_of_matches {c : Char} {rest text : List Char} {kind : Kind}
    (hFront : text <+: c :: rest) (hWord : kind.Matches text) :
    ∃ more, text = c :: more ∧ more <+: rest ∧ Kind.ofChar? c = some kind := by
  obtain ⟨d, more, rfl⟩ := List.exists_cons_of_ne_nil hWord.nonempty
  obtain ⟨rfl, hMore⟩ := List.cons_prefix_cons.1 hFront
  exact ⟨more, rfl, hMore, Kind.ofChar?_eq_some_iff.2 (hWord.inClass d (by simp))⟩

theorem longestMatch_munch : LongestMatch munch where
  isWord := by
    intro c rest kind more hFound
    obtain ⟨kind, hKind, hEq⟩ := Option.map_eq_some_iff.1 hFound
    cases hEq
    have hFirst := Kind.ofChar?_eq_some_iff.1 hKind
    cases hRuns : kind.runs with
    | false => exact ⟨by simp, by simp, by simpa using hFirst, by simp⟩
    | true =>
        have hFront := List.takeWhile_prefix (l := rest) (Kind.ofChar? · == some kind)
        rw [if_pos rfl, ← List.prefix_iff_eq_take.1 hFront]
        refine ⟨hFront.length_le, List.cons_ne_nil _ _, ?_, fun hSingle => ?_⟩
        · rw [List.forall_mem_cons]
          refine ⟨hFirst, fun d hd => Kind.ofChar?_eq_some_iff.1 ?_⟩
          simpa using List.mem_takeWhile_imp hd
        · rw [hRuns] at hSingle
          cases hSingle
  longest := by
    intro c rest kind more hFound other text hFront hWord
    obtain ⟨kind, hKind, hEq⟩ := Option.map_eq_some_iff.1 hFound
    cases hEq
    obtain ⟨longer, rfl, ⟨behind, rfl⟩, hOther⟩ := exists_cons_of_matches hFront hWord
    obtain rfl : kind = other := Option.some.inj (hKind.symm.trans hOther)
    cases hRuns : kind.runs with
    | false => simp [hWord.single hRuns]
    | true =>
        have hClass : ∀ d ∈ longer, (Kind.ofChar? d == some kind) = true := by
          intro d hd
          simpa using Kind.ofChar?_eq_some_iff.2 (hWord.inClass d (by simp [hd]))
        rw [if_pos rfl, List.takeWhile_append_of_pos hClass]
        simp
  no_word := by
    intro c rest hNone kind text hFront hWord
    obtain ⟨more, rfl, -, hKind⟩ := exists_cons_of_matches hFront hWord
    rw [munch, hKind] at hNone
    cases hNone

/-- The word that is found does not go on behind its end. -/
private theorem LongestMatch.joins_eq_false {next : Char → List Char → Option (Kind × Nat)}
    (hNext : LongestMatch next) {c : Char} {rest : List Char} {kind : Kind} {more : Nat}
    (hFound : next c rest = some (kind, more)) :
    ∀ a ∈ (c :: rest.take more).getLast?, ∀ b ∈ (rest.drop more).head?, joins a b = false := by
  obtain ⟨hLength, hWord⟩ := hNext.isWord hFound
  intro a ha b hb
  obtain ⟨behind, hBehind⟩ := List.head?_eq_some_iff.1 hb
  have hLast := Kind.ofChar?_eq_some_iff.2 (hWord.inClass a (List.mem_of_mem_getLast? ha))
  by_contra hJoins
  rw [Bool.not_eq_false, joins, hLast] at hJoins
  obtain ⟨hRuns, hKind⟩ : kind.runs = true ∧ Kind.ofChar? b = some kind := by
    simpa using hJoins
  -- otherwise one more character would make a longer word
  have hLonger : kind.Matches (c :: rest.take more ++ [b]) := by
    refine ⟨List.cons_ne_nil _ _, ?_, fun hSingle => ?_⟩
    · exact List.forall_mem_append.2
        ⟨hWord.inClass, by simpa using Kind.ofChar?_eq_some_iff.1 hKind⟩
    · rw [hRuns] at hSingle
      cases hSingle
  have hFront : c :: rest.take more ++ [b] <+: c :: rest := by
    refine ⟨behind, ?_⟩
    rw [List.append_assoc, List.singleton_append, ← hBehind, List.cons_append,
      List.take_append_drop]
  have hLong := hNext.longest hFound kind _ hFront hLonger
  simp only [List.length_append, List.length_cons, List.length_take, List.length_nil,
    min_eq_left hLength] at hLong
  omega

/-- **Taking the longest word** again and again finds the tokens. -/
theorem scan_eq_from? {next : Char → List Char → Option (Kind × Nat)}
    (hNext : LongestMatch next) (start : Nat) (s : List Char) :
    scan next start s = from? start s := by
  fun_induction scan next start s with
  | case1 start => rfl
  | case2 start c rest kind more hFound lexeme ih =>
      obtain ⟨-, hWord⟩ := hNext.isWord hFound
      have hSplit : c :: rest = lexeme ++ rest.drop more := by
        simp only [lexeme, List.cons_append, List.take_append_drop]
      have hRun : from? start lexeme = .ok [⟨kind, lexeme, ⟨start, start + byteLength lexeme⟩⟩] :=
        from?_run start hWord.nonempty
          (fun d hd => Kind.ofChar?_eq_some_iff.2 (hWord.inClass d hd)) hWord.runs_or_single
      rw [ih, hSplit, from?_append start (hNext.joins_eq_false hFound), hRun]
      rfl
  | case3 start c rest hNone =>
      -- a character of the alphabet is a word by itself
      have hOutside : ¬ InAlphabet c := by
        rw [← isSome_ofChar?_iff, Option.isSome_iff_exists]
        rintro ⟨kind, hKind⟩
        refine hNext.no_word hNone kind [c] (by simp) ⟨by simp, ?_, by simp⟩
        simpa using Kind.ofChar?_eq_some_iff.1 hKind
      refine (from?_eq_error_iff.2 ⟨[], c, rest, rfl, by simp, hOutside, ?_⟩).symm
      simp

/-! ## Sources -/

theorem ofSource?_eq_ok_iff {source : List Char} {ts : List Token} :
    ofSource? source = .ok ts ↔ Tiling source ts := by
  rw [ofSource?_eq, from?_eq_ok_iff, tiling_iff]

theorem ofSource?_eq_error_iff {source : List Char} {err : ParseError} :
    ofSource? source = .error err ↔ Stray 0 source err := by
  rw [ofSource?_eq, from?_eq_error_iff]

/-- **The longest words tile a source.** A source has tokens if and only if all
of it is in the alphabet, and these are its only tiling, found by taking the
longest word again and again. Every sequence of words that may be neighbours is
found in the text it spells. A source without tokens is refused for its first
character outside the alphabet, at the bytes of that character. -/
theorem tokens_tile_source (source : List Char) :
    (∀ next, LongestMatch next → scan next 0 source = ofSource? source) ∧
      ((∃ ts, ofSource? source = .ok ts) ↔ ∀ c ∈ source, InAlphabet c) ∧
      (∀ ts, ofSource? source = .ok ts ↔ Tiling source ts) ∧
      (∀ ts, (∀ t ∈ ts, t.kind.Matches t.lexeme) → ts.IsChain Apart → Tile 0 ts →
        ofSource? (ts.flatMap lexeme) = .ok ts) ∧
      (∀ err, ofSource? source = .error err ↔ Stray 0 source err) := by
  refine ⟨fun next hNext => scan_eq_from? hNext 0 source, exists_from?_iff 0 source,
    fun ts => ofSource?_eq_ok_iff, fun ts hWords hApart hTile => ?_,
    fun err => ofSource?_eq_error_iff⟩
  exact from?_eq_ok_iff.2 ⟨fun t ht => spelled_iff.2 (hWords t ht), hApart, hTile, rfl⟩

/-- Operator characters run together and parentheses do not; a character of two
bytes is refused at both of them. -/
theorem tokens_tile_source_runs :
    Tiling ['(', '(', 'x', '*', '-'] [⟨.openParen, ['('], ⟨0, 1⟩⟩, ⟨.openParen, ['('], ⟨1, 2⟩⟩,
        ⟨.name, ['x'], ⟨2, 3⟩⟩, ⟨.operator, ['*', '-'], ⟨3, 5⟩⟩] ∧
      scan munch 0 ['x', 'π', '+'] = .error ⟨⟨1, 3⟩, .invalidCharacter 'π'⟩ ∧
      Stray 0 ['x', 'π', '+'] ⟨⟨1, 3⟩, .invalidCharacter 'π'⟩ := by
  obtain ⟨-, -, hTiling, -, -⟩ := tokens_tile_source ['(', '(', 'x', '*', '-']
  obtain ⟨hScan, -, -, -, hStray⟩ := tokens_tile_source ['x', 'π', '+']
  have hRefused : ofSource? ['x', 'π', '+'] = .error ⟨⟨1, 3⟩, .invalidCharacter 'π'⟩ := rfl
  exact ⟨(hTiling _).1 rfl, (hScan munch longestMatch_munch).trans hRefused,
    (hStray _).1 hRefused⟩

end Fluxion.Token
