import Fluxion.Expr.Outline
import Fluxion.Proofs.Encoding
import Fluxion.Proofs.Nodes
import Fluxion.Proofs.Numeral
import Fluxion.Proofs.Readback

/-!
# Outlines can be read

An outline has no parentheses and does not say how many operands or arguments a
line has. It is read from its last line: when a line is looked at, everything
behind it has been read already, and what has been read deeper than the line and
directly behind it is what stands under it. Nothing else is needed to get the
expression back, so no two expressions have the same outline.

What a line says is told from its characters alone. A name is made of letters, a
call has a pair of parentheses behind its name, an operator is a single
character, and a number has a digit, also if it starts with a minus.

## Main results

* `Number.literal?_plain` — a finite number is read back from its text.
* `Expr.foldrM_outline` — an outline is read back, whatever has been read behind
  it at the same depth or above.
* `Expr.outlineText_determines` — the text of an outline has a line for each
  node, and no other expression has the same text.
-/

namespace Fluxion

open Number Token

namespace Number

/-! ## Numbers -/

theorem plain_ofPattern {negative : Bool} {pattern : Nat} (hPattern : pattern < infinityPattern) :
    plain (ofPattern negative pattern) =
      (if negative then ['-'] else []) ++ plainMagnitude pattern := by
  rw [plain, signed, unsigned, view_ofPattern hPattern]
  rfl

/-- **A finite number is read back from its text**, the sign of a zero
included. -/
theorem literal?_plain {value : Float} (hFinite : value.isFinite = true) :
    literal? (plain value) = some value := by
  obtain ⟨negative, pattern, hPattern, rfl⟩ := exists_of_isFinite hFinite
  obtain ⟨d, hSpells, rfl⟩ := exists_spells_plainMagnitude hPattern
  rw [plain_ofPattern hPattern]
  cases negative with
  | false =>
      rw [if_neg Bool.false_ne_true, List.nil_append]
      exact literal?_of_spells hSpells
  | true =>
      rw [if_pos rfl, List.singleton_append]
      exact literal?_minus_of_spells hSpells

end Number

/-! ## Labels -/

/-- What is written on the line of a node. -/
def Node.label : Node → List Char
  | const value => Number.plain value
  | var name => name.toList
  | operation op => [op.symbol]
  | call function _ => function.toList ++ ['(', ')']

/-- The node is a finite constant, an operation, or has a name of nothing but
letters. -/
def Node.IsLettered : Node → Prop
  | const value => value.isFinite = true
  | var name | call name _ => ∀ c ∈ name.toList, c.isAlpha
  | operation _ => True

namespace Expr

/-! ## Reading an outline -/

/-- The expression that a label stands for with the given ones below it. -/
def ofLabel? (label : List Char) (below : List Expr) : Option Expr :=
  let name := String.ofList (label.takeWhile Char.isAlpha)
  let behind := label.dropWhile Char.isAlpha
  if behind = ['(', ')'] then some (call name below)
  else
    match Operator.ofText? label, below with
    | some op, [left, right] => some (binary op left right)
    | none, [] => if behind = [] then some (var name) else (Number.literal? label).map const
    | _, _ => none

/-- Reads a line in front of what has been read behind it, which is known with
its depths. What is deeper than the line, up to the first that is not, stands
below it. -/
def readLine? (line : OutlineLine) (read : List (Nat × Expr)) : Option (List (Nat × Expr)) :=
  let below := (read.takeWhile (line.depth < ·.1)).map Prod.snd
  (ofLabel? line.label below).map fun e =>
    (line.depth, e) :: read.dropWhile (line.depth < ·.1)

/-- The line of a text: two blanks a level, and what is behind them. -/
def OutlineLine.ofText (text : List Char) : OutlineLine :=
  ⟨(text.takeWhile (· = ' ')).length / 2, text.dropWhile (· = ' ')⟩

/-- The expression of an outline, if all of it stands below its first line. -/
def ofOutlineText? (text : String) : Option Expr :=
  match ((text.toList.splitOn '\n').map OutlineLine.ofText).foldrM readLine? [] with
  | some [(_, e)] => some e
  | _ => none

/-! ## What a label stands for -/

private theorem ofText?_eq_none {text : List Char}
    (hFirst : ∀ c ∈ text.head?, Kind.ofChar? c ≠ some .operator) :
    Operator.ofText? text = none := by
  cases hText : Operator.ofText? text with
  | none => rfl
  | some op =>
      unfold Operator.ofText? at hText
      split at hText
      · next c =>
          have hOperator := Kind.ofChar?_symbol op
          rw [Operator.symbol_of_ofChar? hText] at hOperator
          exact absurd hOperator (hFirst c rfl)
      · cases hText

private theorem exists_cons_of_plain {value : Float} (hFinite : value.isFinite = true) :
    ∃ c rest, plain value = c :: rest ∧ c.isAlpha = false ∧ c ≠ '(' ∧
      Operator.ofText? (c :: rest) = none := by
  obtain ⟨negative, pattern, hPattern, rfl⟩ := exists_of_isFinite hFinite
  obtain ⟨d, hSpells, -⟩ := exists_spells_plainMagnitude hPattern
  obtain ⟨hSome, hKind⟩ := hSpells.ofKind
  obtain ⟨c, rest, hText⟩ : ∃ c rest, plainMagnitude pattern = c :: rest :=
    List.exists_cons_of_ne_nil hSome
  have hDigit : Kind.ofChar? c = some .number := hKind c (by simp [hText])
  rw [plain_ofPattern hPattern, hText]
  cases negative with
  | false =>
      refine ⟨c, rest, rfl, ?_, ?_, ofText?_eq_none (by simp [hDigit])⟩
      · by_contra hAlpha
        rw [Kind.ofChar?_of_isAlpha (by simpa using hAlpha)] at hDigit
        cases hDigit
      · exact (Kind.noParen_of_ofChar? hDigit rfl).1
  | true => exact ⟨'-', c :: rest, rfl, by decide, by decide, rfl⟩

theorem ofLabel?_const {value : Float} (hFinite : value.isFinite = true) :
    ofLabel? (plain value) [] = some (const value) := by
  obtain ⟨c, rest, hPlain, hAlpha, hParen, hOperator⟩ := exists_cons_of_plain hFinite
  have hRead := literal?_plain hFinite
  rw [hPlain] at hRead ⊢
  have hDrop : (c :: rest).dropWhile Char.isAlpha = c :: rest := by simp [hAlpha]
  have hNoCall : c :: rest ≠ ['(', ')'] := by simp [hParen]
  simp only [ofLabel?, hDrop, if_neg hNoCall, hOperator, hRead]
  rfl

theorem ofLabel?_var {name : String} (hLetters : ∀ c ∈ name.toList, c.isAlpha) :
    ofLabel? name.toList [] = some (var name) := by
  have hEnd : ∀ c ∈ ([] : List Char).head?, c.isAlpha = false := by simp
  obtain ⟨hTake, hDrop⟩ := takeWhile_dropWhile_append hLetters hEnd
  rw [List.append_nil] at hTake hDrop
  have hOperator : Operator.ofText? name.toList = none := by
    refine ofText?_eq_none fun c hc => ?_
    rw [Kind.ofChar?_of_isAlpha (hLetters c (List.mem_of_head? hc))]
    decide
  simp only [ofLabel?, hTake, hDrop, hOperator, String.ofList_toList]
  rfl

theorem ofLabel?_call {function : String} (hLetters : ∀ c ∈ function.toList, c.isAlpha)
    (arguments : List Expr) :
    ofLabel? (function.toList ++ ['(', ')']) arguments = some (call function arguments) := by
  have hParen : ∀ c ∈ ['(', ')'].head?, c.isAlpha = false := by simp
  obtain ⟨hTake, hDrop⟩ := takeWhile_dropWhile_append hLetters hParen
  simp only [ofLabel?, hTake, hDrop, String.ofList_toList]
  rfl

theorem ofLabel?_operation (op : Operator) (left right : Expr) :
    ofLabel? [op.symbol] [left, right] = some (binary op left right) := by
  have hAlpha : op.symbol.isAlpha = false := by cases op <;> decide
  have hDrop : [op.symbol].dropWhile Char.isAlpha = [op.symbol] := by simp [hAlpha]
  have hNoCall : [op.symbol] ≠ ['(', ')'] := by simp
  have hOperator : Operator.ofText? [op.symbol] = some op := Operator.ofChar?_symbol op
  simp only [ofLabel?, hDrop, if_neg hNoCall, hOperator]

/-! ## What an outline stands for -/

/-- A line is read if its label is, given what has been read directly below it. -/
theorem readLine?_eq {depth : Nat} {label : List Char} {es : List Expr} {e : Expr}
    {read : List (Nat × Expr)} (hLabel : ofLabel? label es = some e)
    (hRead : ∀ placed ∈ read.head?, placed.1 ≤ depth) :
    readLine? ⟨depth, label⟩ (es.map (depth + 1, ·) ++ read) = some ((depth, e) :: read) := by
  have hBelow : ∀ placed ∈ es.map (depth + 1, ·), decide (depth < placed.1) = true := by
    simp
  have hBehind : ∀ placed ∈ read.head?, decide (depth < placed.1) = false := by
    intro placed hPlaced
    have := hRead placed hPlaced
    simpa using this
  obtain ⟨hTake, hDrop⟩ := takeWhile_dropWhile_append hBelow hBehind
  have hExprs : (es.map (depth + 1, ·)).map Prod.snd = es := by
    rw [List.map_map]
    exact List.map_id es
  simp only [readLine?, hTake, hDrop, hExprs, hLabel, Option.map_some]

mutual

/-- **An outline is read back**, whatever has been read behind it at the same
depth or above. -/
theorem foldrM_outline {e : Expr} (hLettered : e.Every Node.IsLettered) {depth : Nat}
    {read : List (Nat × Expr)} (hRead : ∀ placed ∈ read.head?, placed.1 ≤ depth) :
    (e.outline depth).foldrM readLine? read = some ((depth, e) :: read) := by
  match e with
  | const value =>
      have hLabel := ofLabel?_const ((every_const value).1 hLettered)
      rw [outline, List.foldrM_cons]
      exact readLine?_eq hLabel hRead
  | var name =>
      have hLabel := ofLabel?_var ((every_var name).1 hLettered)
      rw [outline, List.foldrM_cons]
      exact readLine?_eq hLabel hRead
  | binary op left right =>
      obtain ⟨-, hLeft, hRight⟩ := (every_binary op left right).1 hLettered
      have hDeeper : ∀ placed ∈ read.head?, placed.1 ≤ depth + 1 := fun placed hPlaced =>
        Nat.le_succ_of_le (hRead placed hPlaced)
      have hReadRight := foldrM_outline hRight hDeeper
      have hBeside : ∀ placed ∈ ((depth + 1, right) :: read).head?, placed.1 ≤ depth + 1 := by
        simp
      have hReadLeft := foldrM_outline hLeft hBeside
      rw [outline, List.cons_append, List.foldrM_cons, List.foldrM_append, hReadRight]
      show ((left.outline (depth + 1)).foldrM readLine? ((depth + 1, right) :: read) >>= _) = _
      rw [hReadLeft]
      exact readLine?_eq (ofLabel?_operation op left right) hRead
  | call function arguments =>
      obtain ⟨hName, hArguments⟩ := (every_call function arguments).1 hLettered
      have hDeeper : ∀ placed ∈ read.head?, placed.1 ≤ depth + 1 := fun placed hPlaced =>
        Nat.le_succ_of_le (hRead placed hPlaced)
      rw [outline, List.foldrM_cons, foldrM_outlineAll hArguments hDeeper]
      exact readLine?_eq (ofLabel?_call hName arguments) hRead

theorem foldrM_outlineAll {es : List Expr} (hLettered : ∀ e ∈ es, e.Every Node.IsLettered)
    {depth : Nat} {read : List (Nat × Expr)} (hRead : ∀ placed ∈ read.head?, placed.1 ≤ depth) :
    (outlineAll depth es).foldrM readLine? read = some (es.map (depth, ·) ++ read) := by
  match es with
  | [] => rfl
  | e :: rest =>
      obtain ⟨hFirst, hMore⟩ := List.forall_mem_cons.1 hLettered
      have hNext : ∀ placed ∈ (rest.map (depth, ·) ++ read).head?, placed.1 ≤ depth := by
        cases rest with
        | nil => exact hRead
        | cons next rest => simp
      rw [outlineAll, List.foldrM_append, foldrM_outlineAll hMore hRead]
      exact foldrM_outline hFirst hNext

end

/-! ## The text of an outline -/

mutual

/-- The labels of an outline are those of the nodes, in order. -/
theorem map_label_outline : ∀ (e : Expr) (depth : Nat),
    (e.outline depth).map OutlineLine.label = e.nodes.map Node.label
  | const value, depth => rfl
  | var name, depth => rfl
  | binary op left right, depth => by
      simp [outline, nodes, Node.label, map_label_outline left, map_label_outline right]
  | call function arguments, depth => by
      simp [outline, nodes, Node.label, map_label_outlineAll arguments]

theorem map_label_outlineAll : ∀ (es : List Expr) (depth : Nat),
    (outlineAll depth es).map OutlineLine.label = (nodesAll es).map Node.label
  | [], depth => rfl
  | e :: rest, depth => by
      simp [outlineAll, nodesAll, map_label_outline e, map_label_outlineAll rest]

end

/-- Labels are written in the characters of sources, which are not blank. -/
theorem isSome_ofChar?_of_mem_label {node : Node} (hLettered : node.IsLettered) {c : Char}
    (hc : c ∈ node.label) : (Kind.ofChar? c).isSome := by
  have hLetter {name : String} (hLetters : ∀ c ∈ name.toList, c.isAlpha) (hc : c ∈ name.toList) :
      (Kind.ofChar? c).isSome := by
    rw [Kind.ofChar?_of_isAlpha (hLetters c hc)]
    rfl
  cases node with
  | const value =>
      obtain ⟨negative, pattern, hPattern, rfl⟩ := exists_of_isFinite hLettered
      obtain ⟨d, hSpells, -⟩ := exists_spells_plainMagnitude hPattern
      rw [Node.label, plain_ofPattern hPattern, List.mem_append] at hc
      rcases hc with hMinus | hDigit
      · obtain rfl : c = '-' := by cases negative <;> simp_all
        rfl
      · rw [hSpells.ofKind.2 c hDigit]
        rfl
  | var name => exact hLetter hLettered hc
  | operation op =>
      obtain rfl : c = op.symbol := by simpa [Node.label] using hc
      rw [Kind.ofChar?_symbol]
      rfl
  | call function given =>
      rcases List.mem_append.1 hc with hName | hParen
      · exact hLetter hLettered hName
      · rcases List.mem_pair.1 hParen with rfl | rfl <;> rfl

theorem notMem_label_of_mem_outline {e : Expr} (hLettered : e.Every Node.IsLettered) {depth : Nat}
    {line : OutlineLine} (hLine : line ∈ e.outline depth) {c : Char}
    (hc : Kind.ofChar? c = none) : c ∉ line.label := by
  intro hMem
  have hLabel : line.label ∈ (e.outline depth).map OutlineLine.label := List.mem_map_of_mem hLine
  rw [map_label_outline, List.mem_map] at hLabel
  obtain ⟨node, hNode, hLabel⟩ := hLabel
  have hSome := isSome_ofChar?_of_mem_label (hLettered node hNode) (hLabel ▸ hMem)
  rw [hc] at hSome
  cases hSome

/-- A line is told from its text if its label does not start with a blank. -/
theorem OutlineLine.ofText_text {line : OutlineLine} (hLabel : ' ' ∉ line.label) :
    OutlineLine.ofText line.text = line := by
  have hBlanks : ∀ c ∈ List.replicate (2 * line.depth) ' ', decide (c = ' ') = true := by
    intro c hc
    simp [List.eq_of_mem_replicate hc]
  have hFirst : ∀ c ∈ line.label.head?, decide (c = ' ') = false := by
    intro c hc
    have hMem := List.mem_of_head? hc
    simp only [decide_eq_false_iff_not]
    rintro rfl
    exact hLabel hMem
  obtain ⟨hTake, hDrop⟩ := takeWhile_dropWhile_append hBlanks hFirst
  rw [OutlineLine.ofText, OutlineLine.text, hTake, hDrop, List.length_replicate,
    Nat.mul_div_cancel_left _ (by decide)]

section

variable {e : Expr} (hLettered : e.Every Node.IsLettered)
include hLettered

/-- The text of an outline is cut into its lines at the line breaks. -/
theorem splitOn_outlineText :
    e.outlineText.toList.splitOn '\n' = (e.outline 0).map OutlineLine.text := by
  have hBreak : ∀ l ∈ (e.outline 0).map OutlineLine.text, '\n' ∉ l := by
    intro l hl
    obtain ⟨line, hLine, rfl⟩ := List.mem_map.1 hl
    rw [OutlineLine.text, List.mem_append, not_or]
    refine ⟨fun hBlank => ?_, notMem_label_of_mem_outline hLettered hLine (by decide)⟩
    exact absurd (List.eq_of_mem_replicate hBlank) (by decide)
  have hSome : (e.outline 0).map OutlineLine.text ≠ [] := by
    have := e.size_pos
    rw [← length_outline e 0] at this
    rw [ne_eq, List.map_eq_nil_iff]
    exact List.ne_nil_of_length_pos this
  rw [outlineText, String.toList_ofList]
  exact List.splitOn_intercalate '\n' hBreak hSome

/-- **The text of an outline is read back.** -/
theorem ofOutlineText?_outlineText : ofOutlineText? e.outlineText = some e := by
  have hLines : ((e.outline 0).map OutlineLine.text).map OutlineLine.ofText = e.outline 0 := by
    rw [List.map_map]
    refine (List.map_congr_left fun line hLine => ?_).trans (List.map_id _)
    exact OutlineLine.ofText_text (notMem_label_of_mem_outline hLettered hLine (by decide))
  have hNothing : ∀ placed ∈ ([] : List (Nat × Expr)).head?, placed.1 ≤ 0 := by simp
  rw [ofOutlineText?, splitOn_outlineText hLettered, hLines, foldrM_outline hLettered hNothing]

end

/-! ## Expressions that equal themselves -/

mutual

theorem beq_self {e : Expr} (hLettered : e.Every Node.IsLettered) : e.beq e = true := by
  match e with
  | const value =>
      obtain ⟨negative, pattern, hPattern, rfl⟩ :=
        exists_of_isFinite ((every_const value).1 hLettered)
      exact beq_ofPattern_self hPattern
  | var name => exact beq_self_eq_true name
  | binary op left right =>
      obtain ⟨-, hLeft, hRight⟩ := (every_binary op left right).1 hLettered
      rw [beq, beq_self_eq_true op, beq_self hLeft, beq_self hRight]
      rfl
  | call function arguments =>
      obtain ⟨-, hArguments⟩ := (every_call function arguments).1 hLettered
      rw [beq, beq_self_eq_true function, beqAll_self hArguments]
      rfl

theorem beqAll_self {es : List Expr} (hLettered : ∀ e ∈ es, e.Every Node.IsLettered) :
    beqAll es es = true := by
  match es with
  | [] => rfl
  | e :: rest =>
      obtain ⟨hFirst, hMore⟩ := List.forall_mem_cons.1 hLettered
      rw [beqAll, beq_self hFirst, beqAll_self hMore]
      rfl

end

/-- **An outline determines its expression.** The text has one line for each
node, and it is the text of no other expression, not even of one with another
zero. -/
theorem outlineText_determines {e : Expr} (hLettered : e.Every Node.IsLettered) :
    (e.outlineText.toList.splitOn '\n').length = e.size ∧
      ∀ f : Expr, f.Every Node.IsLettered → e.outlineText = f.outlineText →
        e = f ∧ (e == f) = true := by
  constructor
  · rw [splitOn_outlineText hLettered, List.length_map, length_outline]
  · intro f hOther hSame
    have hRead := ofOutlineText?_outlineText hLettered
    rw [hSame, ofOutlineText?_outlineText hOther] at hRead
    obtain rfl := Option.some.inj hRead
    exact ⟨rfl, beq_self hLettered⟩

/-- The argument that is a difference of a negative number, the call without
arguments and the variable of its name are told apart. -/
theorem outlineText_determines_call :
    let minusTwo := const (ofPattern true 0x4000000000000000)
    let e := call "f" [binary .sub minusTwo (call "g" []), var "g"]
    let text := "f()\n  -\n    -2\n    g()\n  g"
    e.Every Node.IsLettered ∧ e.outlineText = text ∧ (text.toList.splitOn '\n').length = e.size ∧
      (e == e) = true ∧ ∀ f : Expr, f.Every Node.IsLettered → text = f.outlineText → e = f := by
  intro minusTwo e text
  have hFinite : (ofPattern true 0x4000000000000000).isFinite = true := by decide +kernel
  have hLettered : e.Every Node.IsLettered := by
    simp [e, minusTwo, Node.IsLettered, hFinite]
  have hText : e.outlineText = text := by decide +kernel
  have hDetermines := outlineText_determines hLettered
  rw [hText] at hDetermines
  exact ⟨hLettered, hText, hDetermines.1, (hDetermines.2 e hLettered hText.symm).2,
    fun f hOther hSame => (hDetermines.2 f hOther hSame).1⟩

end Expr

end Fluxion
