import LinkedTables.Proofs.DocumentNumerals
import LinkedTables.Proofs.DocumentTexts

/-! # Documents read as they are written

`Spells` is the grammar of documents, with blanks wherever they may stand.  Whatever a text spells is
read from it, so the two layouts in which documents are written make no difference to a reader. -/

namespace LinkedTables

namespace Json

/-- Blanks and line breaks. -/
def Blank (text : List Char) : Prop :=
  ∀ c ∈ text, isSpace c = true

mutual

/-- A text that spells a document. -/
inductive Spells : Json → List Char → Prop where
  | null : Spells .null ['n', 'u', 'l', 'l']
  | yes : Spells (.truth true) ['t', 'r', 'u', 'e']
  | no : Spells (.truth false) ['f', 'a', 'l', 's', 'e']
  | number {numeral : Numeral} (wellFormed : numeral.WellFormed) :
      Spells (.number numeral) numeral.chars
  | string {pieces : List Piece} (writable : ∀ piece ∈ pieces, piece.Writable) :
      Spells (.string pieces) (stringChars pieces)
  | noElements {space : List Char} (blank : Blank space) : Spells (.array []) ('[' :: (space ++ [']']))
  | array {elements : List Json} {space text : List Char} (blank : Blank space)
      (spelled : SpellsElements elements text) : Spells (.array elements) ('[' :: (space ++ text))
  | noMembers {space : List Char} (blank : Blank space) :
      Spells (.object []) ('{' :: (space ++ ['}']))
  | object {members : List (List Piece × Json)} {space text : List Char} (blank : Blank space)
      (spelled : SpellsMembers members text) : Spells (.object members) ('{' :: (space ++ text))

/-- A text that spells the elements of an array and its closing bracket. -/
inductive SpellsElements : List Json → List Char → Prop where
  | last {element : Json} {text space : List Char} (spelled : Spells element text)
      (blank : Blank space) : SpellsElements [element] (text ++ (space ++ [']']))
  | cons {element : Json} {elements : List Json} {text space space' rest : List Char}
      (spelled : Spells element text) (blank : Blank space) (blank' : Blank space')
      (others : SpellsElements elements rest) :
      SpellsElements (element :: elements) (text ++ (space ++ ',' :: (space' ++ rest)))

/-- A text that spells the members of an object and its closing brace. -/
inductive SpellsMembers : List (List Piece × Json) → List Char → Prop where
  | last {name : List Piece} {value : Json} {space text space' : List Char}
      (writable : ∀ piece ∈ name, piece.Writable) (blank : Blank space) (spelled : Spells value text)
      (blank' : Blank space') :
      SpellsMembers [(name, value)] (stringChars name ++ ':' :: (space ++ (text ++ (space' ++ ['}']))))
  | cons {name : List Piece} {value : Json} {members : List (List Piece × Json)}
      {space text space' space'' rest : List Char}
      (writable : ∀ piece ∈ name, piece.Writable) (blank : Blank space) (spelled : Spells value text)
      (blank' : Blank space') (blank'' : Blank space'') (others : SpellsMembers members rest) :
      SpellsMembers ((name, value) :: members)
        (stringChars name ++ ':' :: (space ++ (text ++ (space' ++ ',' :: (space'' ++ rest)))))

end

variable {document : Json} {elements : List Json} {members : List (List Piece × Json)}
  {text space rest : List Char} {budget : Nat}

/-! ## Where parts begin and end -/

/-- A text whose first character is no blank and closes nothing. -/
def Starts (text : List Char) : Prop :=
  ∃ c others, text = c :: others ∧ isSpace c = false ∧ c ≠ ']' ∧ c ≠ '}'

theorem Starts.append (starts : Starts text) (rest : List Char) : Starts (text ++ rest) := by
  obtain ⟨c, others, rfl, marks⟩ := starts
  exact ⟨c, others ++ rest, rfl, marks⟩

theorem skipSpace_cons {c : Char} (blank : Blank space) (visible : isSpace c = false) :
    skipSpace (space ++ c :: rest) = c :: rest := by
  rw [skipSpace, List.dropWhile_append_of_pos blank]
  simp [visible]

theorem skipSpace_starts (blank : Blank space) (starts : Starts text) :
    skipSpace (space ++ text) = text := by
  obtain ⟨c, others, rfl, visible, _⟩ := starts
  exact skipSpace_cons blank visible

theorem exists_cons_chars {numeral : Numeral} (wellFormed : numeral.WellFormed) :
    ∃ c others, numeral.chars = c :: others ∧ (c = '-' ∨ c.isDigit = true) := by
  obtain ⟨c, others, whole⟩ := List.exists_cons_of_ne_nil wellFormed.whole.nonempty
  have digit := wellFormed.whole.decimal c (by simp [whole])
  cases negative : numeral.negative with
  | true => exact ⟨'-', _, by simp only [Numeral.chars, negative]; rfl, .inl rfl⟩
  | false => exact ⟨c, _, by simp only [Numeral.chars, negative, whole]; rfl, .inr digit⟩

/-- A character that begins a number begins nothing else. -/
theorem ne_of_number {c other : Char} (number : c = '-' ∨ c.isDigit = true)
    (no : ¬ (other = '-' ∨ other.isDigit = true)) : c ≠ other := by
  rintro rfl
  exact no number

theorem Spells.starts (spells : Spells document text) : Starts text := by
  cases spells with
  | number wellFormed =>
    obtain ⟨c, others, chars, number⟩ := exists_cons_chars wellFormed
    refine ⟨c, others, chars, ?_, ne_of_number number (by decide), ne_of_number number (by decide)⟩
    have space : c ≠ ' ' ∧ c ≠ '\t' ∧ c ≠ '\n' ∧ c ≠ '\r' := by
      refine ⟨?_, ?_, ?_, ?_⟩ <;> exact ne_of_number number (by decide)
    simp [isSpace, space]
  | null | yes | no | string | noElements | array | noMembers | object =>
    exact ⟨_, _, rfl, by decide, by decide, by decide⟩

theorem SpellsElements.starts (spells : SpellsElements elements text) : Starts text := by
  cases spells with
  | last spelled _ | cons spelled _ _ _ => exact spelled.starts.append _

theorem SpellsMembers.starts (spells : SpellsMembers members text) : Starts text := by
  cases spells <;> exact ⟨_, _, rfl, by decide, by decide, by decide⟩

theorem ends_cons {c : Char} (mark : c.isDigit = false ∧ c ≠ '.' ∧ c ≠ 'e' ∧ c ≠ 'E')
    (rest : List Char) : Ends (c :: rest) := by
  intro first here
  cases here
  exact mark

theorem ends_blank (blank : Blank space) (ends : Ends rest) : Ends (space ++ rest) := by
  cases space with
  | nil => exact ends
  | cons c space =>
    have first := blank c (by simp)
    simp only [isSpace, Bool.or_eq_true, beq_iff_eq] at first
    rcases first with ((rfl | rfl) | rfl) | rfl <;> exact ends_cons (by decide) _

/-! ## Reading -/

theorem readValue_numeral {c : Char} (number : c = '-' ∨ c.isDigit = true) (budget : Nat)
    (rest : List Char) :
    readValue (budget + 1) (c :: rest) =
      (readNumeral (c :: rest)).map fun (numeral, rest) => (.number numeral, rest) := by
  rw [readValue]
  all_goals
    intro others equal
    exact ne_of_number number (by decide) (List.cons.inj equal).1

/-- What a reader of values with a budget reads of any text that spells a document. -/
def ReadsValues (budget : Nat) : Prop :=
  ∀ {document : Json} {text : List Char}, Spells document text → text.length ≤ budget →
    ∀ rest, Ends rest → readValue budget (text ++ rest) = some (document, rest)

def ReadsElements (budget : Nat) : Prop :=
  ∀ {elements : List Json} {text : List Char}, SpellsElements elements text →
    text.length ≤ budget → ∀ rest, readElements budget (text ++ rest) = some (elements, rest)

def ReadsMembers (budget : Nat) : Prop :=
  ∀ {members : List (List Piece × Json)} {text : List Char}, SpellsMembers members text →
    text.length ≤ budget → ∀ rest, readMembers budget (text ++ rest) = some (members, rest)

theorem readsElements_succ (values : ReadsValues budget) (elements : ReadsElements budget) :
    ReadsElements (budget + 1) := by
  intro elements' text spells fits rest
  cases spells with
  | @last element text space spelled blank =>
    have read := values spelled (by simp at fits; omega) (space ++ ']' :: rest)
      (ends_blank blank (ends_cons (by decide) _))
    have close : skipSpace (space ++ ']' :: rest) = ']' :: rest := skipSpace_cons blank (by decide)
    simp only [List.append_assoc, List.singleton_append, readElements, read, close]
  | @cons element elements' text space space' others spelled blank blank' spells =>
    have read := values spelled (by simp at fits; omega)
      (space ++ ',' :: (space' ++ (others ++ rest))) (ends_blank blank (ends_cons (by decide) _))
    have comma : skipSpace (space ++ ',' :: (space' ++ (others ++ rest))) =
        ',' :: (space' ++ (others ++ rest)) := skipSpace_cons blank (by decide)
    have next := skipSpace_starts blank' (spells.starts.append rest)
    have readOthers := elements spells (by simp at fits; omega) rest
    simp only [List.append_assoc, List.cons_append, readElements, read, comma, next, readOthers,
      Option.map_some]

theorem readsMembers_succ (values : ReadsValues budget) (members : ReadsMembers budget) :
    ReadsMembers (budget + 1) := by
  intro members' text spells fits rest
  cases spells with
  | @last name value space text space' writable blank spelled blank' =>
    -- What stands behind the value cannot go on with it, so the value is read up to its end.
    have read := values spelled (by simp at fits; omega) (space' ++ '}' :: rest)
      (ends_blank blank' (ends_cons (by decide) _))
    have readName := readPieces_append writable
      (':' :: (space ++ (text ++ (space' ++ '}' :: rest))))
    have colon : skipSpace (':' :: (space ++ (text ++ (space' ++ '}' :: rest)))) =
        ':' :: (space ++ (text ++ (space' ++ '}' :: rest))) := rfl
    have next := skipSpace_starts blank (spelled.starts.append (space' ++ '}' :: rest))
    have close : skipSpace (space' ++ '}' :: rest) = '}' :: rest :=
      skipSpace_cons blank' (by decide)
    simp only [stringChars, List.append_assoc, List.cons_append, List.nil_append, readMembers,
      readName, colon, next, read, close]
  | @cons name value members' space text space' space'' others writable blank spelled blank' blank''
      spells =>
    have read := values spelled (by simp at fits; omega)
      (space' ++ ',' :: (space'' ++ (others ++ rest))) (ends_blank blank' (ends_cons (by decide) _))
    have readName := readPieces_append writable
      (':' :: (space ++ (text ++ (space' ++ ',' :: (space'' ++ (others ++ rest))))))
    have colon : skipSpace (':' :: (space ++ (text ++ (space' ++ ',' ::
        (space'' ++ (others ++ rest)))))) =
        ':' :: (space ++ (text ++ (space' ++ ',' :: (space'' ++ (others ++ rest))))) := rfl
    have next := skipSpace_starts blank
      (spelled.starts.append (space' ++ ',' :: (space'' ++ (others ++ rest))))
    have comma : skipSpace (space' ++ ',' :: (space'' ++ (others ++ rest))) =
        ',' :: (space'' ++ (others ++ rest)) := skipSpace_cons blank' (by decide)
    have next' := skipSpace_starts blank'' (spells.starts.append rest)
    have readOthers := members spells (by simp at fits; omega) rest
    simp only [stringChars, List.append_assoc, List.cons_append, List.nil_append, readMembers,
      readName, colon, next, read, comma, next', readOthers, Option.map_some]

theorem readsValues_succ (elements : ReadsElements budget) (members : ReadsMembers budget) :
    ReadsValues (budget + 1) := by
  intro document text spells fits rest ends
  cases spells with
  | null | yes | no => rfl
  | @number numeral wellFormed =>
    have read := readNumeral_chars wellFormed ends
    obtain ⟨c, others, chars, number⟩ := exists_cons_chars wellFormed
    rw [chars, List.cons_append] at read ⊢
    rw [readValue_numeral number, read, Option.map_some]
  | @string pieces writable => exact readValue_stringChars writable budget rest
  | @noElements space blank =>
    have close : skipSpace (space ++ ']' :: rest) = ']' :: rest := skipSpace_cons blank (by decide)
    simp only [List.cons_append, List.append_assoc, List.nil_append, readValue, close]
  | @array elements' space text blank spells =>
    have read := elements spells (by simp at fits; omega) rest
    have next := skipSpace_starts blank (spells.starts.append rest)
    obtain ⟨c, others, start, _, bracket, _⟩ := spells.starts.append rest
    simp only [List.cons_append, List.append_assoc, readValue, next]
    rw [start] at read ⊢
    split
    -- No element begins with the bracket that would close an empty array.
    next equal => exact absurd (List.cons.inj equal).1 bracket
    next => rw [read, Option.map_some]
  | @noMembers space blank =>
    have close : skipSpace (space ++ '}' :: rest) = '}' :: rest := skipSpace_cons blank (by decide)
    simp only [List.cons_append, List.append_assoc, List.nil_append, readValue, close]
  | @object members' space text blank spells =>
    have read := members spells (by simp at fits; omega) rest
    have next := skipSpace_starts blank (spells.starts.append rest)
    obtain ⟨c, others, start, _, _, brace⟩ := spells.starts.append rest
    simp only [List.cons_append, List.append_assoc, readValue, next]
    rw [start] at read ⊢
    split
    next equal => exact absurd (List.cons.inj equal).1 brace
    next => rw [read, Option.map_some]

theorem reads_all (budget : Nat) :
    ReadsValues budget ∧ ReadsElements budget ∧ ReadsMembers budget := by
  induction budget with
  | zero =>
    -- No part of a document is spelled by no text.
    refine ⟨fun spells fits => ?_, fun spells fits => ?_, fun spells fits => ?_⟩
    all_goals
      obtain ⟨_, _, rfl, _⟩ := spells.starts
      exact absurd fits (by simp)
  | succ budget inductionHypothesis =>
    obtain ⟨values, elements, members⟩ := inductionHypothesis
    exact ⟨readsValues_succ elements members, readsElements_succ values elements,
      readsMembers_succ values members⟩

theorem parse_of_spells {space' : List Char} (spells : Spells document text) (blank : Blank space)
    (blank' : Blank space') :
    parse (String.ofList (space ++ (text ++ space'))) = some document := by
  have start := skipSpace_starts blank (spells.starts.append space')
  have nothing : Ends [] := by simp [Ends]
  have ends : Ends space' := by simpa using ends_blank blank' nothing
  have read := (reads_all ((space ++ (text ++ space')).length + 1)).1 spells
    (by simp only [List.length_append]; omega) space' ends
  have close : skipSpace space' = [] := List.dropWhile_eq_nil_iff.mpr blank'
  simp only [parse, String.toList_ofList, start, read, close, if_true]

/-! ## Layouts -/

mutual

/-- A document that has a spelling: its numbers and strings have one. -/
def Spellable : Json → Prop
  | .null => True
  | .truth _ => True
  | .number numeral => numeral.WellFormed
  | .string pieces => ∀ piece ∈ pieces, piece.Writable
  | .array elements => SpellableElements elements
  | .object members => SpellableMembers members

def SpellableElements : List Json → Prop
  | [] => True
  | element :: elements => Spellable element ∧ SpellableElements elements

def SpellableMembers : List (List Piece × Json) → Prop
  | [] => True
  | (name, value) :: members =>
    (∀ piece ∈ name, piece.Writable) ∧ Spellable value ∧ SpellableMembers members

end

theorem blank_nil : Blank [] := by
  simp [Blank]

theorem blank_space : Blank [' '] := by
  simp [Blank, isSpace]

theorem blank_lineBreak (depth : Nat) : Blank (lineBreak depth) := by
  intro c member
  rcases List.mem_cons.mp member with rfl | member
  · rfl
  · rw [List.eq_of_mem_replicate member]
    rfl

mutual

/-- A document is spelled by its layout without blanks. -/
theorem spells_compactChars : (document : Json) → document.Spellable →
    Spells document document.compactChars
  | .null, _ => .null
  | .truth true, _ => .yes
  | .truth false, _ => .no
  | .number _, spellable => .number spellable
  | .string _, spellable => .string spellable
  | .array [], _ => .noElements blank_nil
  | .array (element :: elements), spellable =>
    .array blank_nil (spells_compactElements (element :: elements) spellable (List.cons_ne_nil _ _))
  | .object [], _ => .noMembers blank_nil
  | .object (member :: members), spellable =>
    .object blank_nil (spells_compactMembers (member :: members) spellable (List.cons_ne_nil _ _))

theorem spells_compactElements : (elements : List Json) → SpellableElements elements →
    elements ≠ [] → SpellsElements elements (compactElements elements)
  | [], _, nonempty => absurd rfl nonempty
  | [last], spellable, _ => .last (spells_compactChars last spellable.1) blank_nil
  | element :: next :: elements, spellable, _ =>
    .cons (spells_compactChars element spellable.1) blank_nil blank_nil
      (spells_compactElements (next :: elements) spellable.2 (List.cons_ne_nil _ _))

theorem spells_compactMembers : (members : List (List Piece × Json)) → SpellableMembers members →
    members ≠ [] → SpellsMembers members (compactMembers members)
  | [], _, nonempty => absurd rfl nonempty
  | [(_, last)], spellable, _ =>
    .last spellable.1 blank_nil (spells_compactChars last spellable.2.1) blank_nil
  | (_, value) :: next :: members, spellable, _ =>
    .cons spellable.1 blank_nil (spells_compactChars value spellable.2.1) blank_nil blank_nil
      (spells_compactMembers (next :: members) spellable.2.2 (List.cons_ne_nil _ _))

end

mutual

theorem spells_prettyChars : (document : Json) → document.Spellable → (depth : Nat) →
    Spells document (prettyChars depth document)
  | .null, _, _ => .null
  | .truth true, _, _ => .yes
  | .truth false, _, _ => .no
  | .number _, spellable, _ => .number spellable
  | .string _, spellable, _ => .string spellable
  | .array [], _, _ => .noElements blank_nil
  | .array (element :: elements), spellable, depth => by
    obtain ⟨text, chars, spells⟩ := spells_prettyElements (element :: elements) spellable
      (List.cons_ne_nil _ _) (depth + 1)
    rw [prettyChars, chars]
    exact .array (blank_lineBreak _) spells
  | .object [], _, _ => .noMembers blank_nil
  | .object (member :: members), spellable, depth => by
    obtain ⟨text, chars, spells⟩ := spells_prettyMembers (member :: members) spellable
      (List.cons_ne_nil _ _) (depth + 1)
    rw [prettyChars, chars]
    exact .object (blank_lineBreak _) spells

theorem spells_prettyElements : (elements : List Json) → SpellableElements elements →
    elements ≠ [] → (depth : Nat) →
    ∃ text, prettyElements depth elements = lineBreak depth ++ text ∧ SpellsElements elements text
  | [], _, nonempty, _ => absurd rfl nonempty
  | [last], spellable, _, depth => by
    refine ⟨_, ?_, .last (spells_prettyChars last spellable.1 depth) (blank_lineBreak (depth - 1))⟩
    simp only [prettyElements, List.append_assoc]
  | element :: next :: elements, spellable, _, depth => by
    obtain ⟨text, chars, spells⟩ := spells_prettyElements (next :: elements) spellable.2
      (List.cons_ne_nil _ _) depth
    refine ⟨_, ?_, .cons (spells_prettyChars element spellable.1 depth) blank_nil
      (blank_lineBreak depth) spells⟩
    simp only [prettyElements, chars, List.append_assoc, List.nil_append]

theorem spells_prettyMembers : (members : List (List Piece × Json)) → SpellableMembers members →
    members ≠ [] → (depth : Nat) →
    ∃ text, prettyMembers depth members = lineBreak depth ++ text ∧ SpellsMembers members text
  | [], _, nonempty, _ => absurd rfl nonempty
  | [(name, last)], spellable, _, depth => by
    refine ⟨_, ?_, .last spellable.1 blank_space (spells_prettyChars last spellable.2.1 depth)
      (blank_lineBreak (depth - 1))⟩
    simp only [prettyMembers, List.append_assoc, List.cons_append, List.nil_append]
  | (name, value) :: next :: members, spellable, _, depth => by
    obtain ⟨text, chars, spells⟩ := spells_prettyMembers (next :: members) spellable.2.2
      (List.cons_ne_nil _ _) depth
    refine ⟨_, ?_, .cons spellable.1 blank_space (spells_prettyChars value spellable.2.1 depth)
      blank_nil (blank_lineBreak depth) spells⟩
    simp only [prettyMembers, chars, List.append_assoc, List.cons_append, List.nil_append]

end

theorem parse_compact (spellable : document.Spellable) : parse document.compact = some document := by
  have read := parse_of_spells (spells_compactChars document spellable) blank_nil blank_nil
  rwa [List.append_nil] at read

theorem parse_pretty (spellable : document.Spellable) : parse document.pretty = some document := by
  have read := parse_of_spells (spells_prettyChars document spellable 0) blank_nil blank_nil
  rwa [List.append_nil] at read

end Json

end LinkedTables
