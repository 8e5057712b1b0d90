import LinkedTables.Proofs.FirstRefusal
import LinkedTables.Proofs.NumeralCharacters

/-! # The texts of vectors

A vector is written as numbers with commas and blanks between them, in a pair of brackets or in
none.  The reader accepts the texts of this shape and no others, and what it makes of one depends on
the numbers alone.  That rests on numbers being read from letters, digits, signs and points only:
so the brackets and separators of a text that is read are those of its layout. -/

namespace LinkedTables

namespace VectorText

/-- A run of commas and blanks. -/
def Gap (run : List Char) : Prop :=
  ∀ c ∈ run, isSeparator c = true

/-- A non-empty run of other characters. -/
def Token (text : List Char) : Prop :=
  text ≠ [] ∧ ∀ c ∈ text, isSeparator c = false

/-- Tokens, a gap between each and the next, and perhaps one behind the last. -/
inductive Items : List (List Char) → List Char → Prop where
  | none : Items [] []
  | last (token : List Char) {after : List Char} (gap : Gap after) : Items [token] (token ++ after)
  | more (token : List Char) {between text next : List Char} {tokens : List (List Char)}
      (gap : Gap between) (apart : between ≠ []) (items : Items (next :: tokens) text) :
      Items (token :: next :: tokens) (token ++ (between ++ text))

/-- Tokens with gaps between and perhaps around them. -/
def Listed (tokens : List (List Char)) (text : List Char) : Prop :=
  ∃ before items, Gap before ∧ Items tokens items ∧ text = before ++ items

/-- A text in a pair of matching brackets, or in none. -/
inductive Enclosed (inner : List Char) : List Char → Prop where
  | bare : Enclosed inner inner
  | round : Enclosed inner ('(' :: (inner ++ [')']))
  | square : Enclosed inner ('[' :: (inner ++ [']']))

/-- How a vector of some tokens is written: as their list, enclosed or not, perhaps between blanks. -/
def Spells (tokens : List (List Char)) (text : List Char) : Prop :=
  ∃ before inner enclosed after, (∀ c ∈ before, isBlank c = true) ∧ (∀ c ∈ after, isBlank c = true) ∧
    Listed tokens inner ∧ Enclosed inner enclosed ∧ text = before ++ (enclosed ++ after)

/-! ## Splitting -/

section

variable {text run token : List Char} {tokens : List (List Char)}

theorem splitTokens_append_cons (text rest : List Char) {c : Char} (separates : isSeparator c = true) :
    splitTokens (text ++ c :: rest) = splitTokens text ++ splitTokens rest := by
  rw [splitTokens, List.splitOnP_append_cons text rest separates, List.filter_append]
  rfl

theorem splitTokens_gap_append (gap : Gap run) (text : List Char) :
    splitTokens (run ++ text) = splitTokens text := by
  induction run with
  | nil => rfl
  | cons c run inductionHypothesis =>
    obtain ⟨separates, gap⟩ := List.forall_mem_cons.mp gap
    rw [List.cons_append, ← List.nil_append (c :: _), splitTokens_append_cons [] _ separates,
      inductionHypothesis gap]
    rfl

theorem splitTokens_append_gap (gap : Gap run) (text : List Char) :
    splitTokens (text ++ run) = splitTokens text := by
  cases run with
  | nil => rw [List.append_nil]
  | cons c run =>
    obtain ⟨separates, gap⟩ := List.forall_mem_cons.mp gap
    have nothing := splitTokens_gap_append gap []
    rw [List.append_nil] at nothing
    rw [splitTokens_append_cons text run separates, nothing]
    exact List.append_nil _

theorem splitTokens_token (single : Token token) : splitTokens token = [token] := by
  rw [splitTokens, List.splitOnP_eq_singleton single.2]
  simp [single.1]

theorem splitTokens_items (items : Items tokens text) (all : ∀ token ∈ tokens, Token token) :
    splitTokens text = tokens := by
  induction items with
  | none => rfl
  | last token gap =>
    rw [splitTokens_append_gap gap, splitTokens_token (all token (by simp))]
  | @more token between text next tokens gap apart items inductionHypothesis =>
    obtain ⟨single, others⟩ := List.forall_mem_cons.mp all
    obtain ⟨c, between, rfl⟩ := List.exists_cons_of_ne_nil apart
    obtain ⟨separates, gap⟩ := List.forall_mem_cons.mp gap
    rw [List.cons_append, splitTokens_append_cons token _ separates, splitTokens_token single,
      splitTokens_gap_append gap, inductionHypothesis others]
    rfl

theorem splitTokens_listed (listed : Listed tokens text) (all : ∀ token ∈ tokens, Token token) :
    splitTokens text = tokens := by
  obtain ⟨before, items, gap, items, rfl⟩ := listed
  rw [splitTokens_gap_append gap, splitTokens_items items all]

theorem Items.cons {between : List Char} (token : List Char) (gap : Gap between)
    (apart : between ≠ []) (items : Items tokens text) :
    Items (token :: tokens) (token ++ (between ++ text)) := by
  cases items with
  | none => exact .last token (by simpa using gap)
  | last next after => exact .more token gap apart (.last next after)
  | more next after apart' items => exact .more token gap apart (.more next after apart' items)

/-- A character that separates nothing begins a token or continues the one behind it. -/
theorem exists_items_cons {c : Char} (inside : isSeparator c = false) (listed : Listed tokens text)
    (all : ∀ token ∈ tokens, Token token) :
    ∃ tokens', Items tokens' (c :: text) ∧ ∀ token ∈ tokens', Token token := by
  have single : Token [c] := ⟨by simp, by simpa using inside⟩
  have longer : ∀ {token}, Token token → Token (c :: token) := fun other =>
    ⟨by simp, List.forall_mem_cons.mpr ⟨inside, other.2⟩⟩
  obtain ⟨before, items, gap, items, rfl⟩ := listed
  cases before with
  | cons b before =>
    -- A separator follows the character, which is therefore a token of its own.
    exact ⟨[c] :: tokens, items.cons [c] gap (by simp), List.forall_mem_cons.mpr ⟨single, all⟩⟩
  | nil =>
    cases items with
    | none => exact ⟨[[c]], .last [c] gap, by simpa using single⟩
    | last token after =>
      exact ⟨[c :: token], .last (c :: token) after, by simpa using longer (all token (by simp))⟩
    | more token between apart items =>
      obtain ⟨other, others⟩ := List.forall_mem_cons.mp all
      exact ⟨_, .more (c :: token) between apart items,
        List.forall_mem_cons.mpr ⟨longer other, others⟩⟩

theorem exists_listed (text : List Char) :
    ∃ tokens, Listed tokens text ∧ ∀ token ∈ tokens, Token token := by
  induction text with
  | nil => exact ⟨[], ⟨[], [], by simp [Gap], .none, rfl⟩, by simp⟩
  | cons c text inductionHypothesis =>
    obtain ⟨tokens, listed, all⟩ := inductionHypothesis
    cases inside : isSeparator c with
    | false =>
      obtain ⟨tokens', items, all'⟩ := exists_items_cons inside listed all
      exact ⟨tokens', ⟨[], _, by simp [Gap], items, rfl⟩, all'⟩
    | true =>
      obtain ⟨before, items, gap, items, rfl⟩ := listed
      exact ⟨tokens, ⟨c :: before, _, List.forall_mem_cons.mpr ⟨inside, gap⟩, items, rfl⟩, all⟩

theorem listed_splitTokens (text : List Char) : Listed (splitTokens text) text := by
  obtain ⟨tokens, listed, all⟩ := exists_listed text
  rwa [splitTokens_listed listed all]

/-! ## Blanks around a text -/

theorem trimBlanks_blank_append (blank : ∀ c ∈ run, isBlank c = true) (text : List Char) :
    trimBlanks (run ++ text) = trimBlanks text := by
  rw [trimBlanks, List.dropWhile_append_of_pos blank, trimBlanks]

theorem trimBlanks_append_blank (blank : ∀ c ∈ run, isBlank c = true) (text : List Char) :
    trimBlanks (text ++ run) = trimBlanks text := by
  have dropped : run.dropWhile isBlank = [] := List.dropWhile_eq_nil_iff.mpr blank
  have blank' : ∀ c ∈ run.reverse, isBlank c = true := by simpa using blank
  simp only [trimBlanks, List.dropWhile_append]
  split
  next empty => rw [dropped, List.isEmpty_iff.mp empty]
  next => rw [List.reverse_append, List.dropWhile_append_of_pos blank']

theorem trimBlanks_between {first last : Char} (inner : List Char) (visible : isBlank first = false)
    (visible' : isBlank last = false) :
    trimBlanks (first :: (inner ++ [last])) = first :: (inner ++ [last]) := by
  simp [trimBlanks, visible, visible']

theorem exists_trimBlanks (text : List Char) :
    ∃ before after, (∀ c ∈ before, isBlank c = true) ∧ (∀ c ∈ after, isBlank c = true) ∧
      text = before ++ (trimBlanks text ++ after) := by
  have blank : ∀ chars : List Char, ∀ c ∈ chars.takeWhile isBlank, isBlank c = true :=
    fun chars c => List.mem_takeWhile_imp
  refine ⟨text.takeWhile isBlank, ((text.dropWhile isBlank).reverse.takeWhile isBlank).reverse,
    blank text, by simpa using blank (text.dropWhile isBlank).reverse, ?_⟩
  rw [trimBlanks, ← List.reverse_append, List.takeWhile_append_dropWhile, List.reverse_reverse,
    List.takeWhile_append_dropWhile]

theorem gap_of_blank (blank : ∀ c ∈ run, isBlank c = true) : Gap run := by
  intro c member
  simp [isSeparator, blank c member]

/-- Blanks separate tokens, so none is lost with the blanks at the ends. -/
@[simp] theorem splitTokens_trimBlanks (text : List Char) :
    splitTokens (trimBlanks text) = splitTokens text := by
  obtain ⟨before, after, blank, blank', whole⟩ := exists_trimBlanks text
  have split := congrArg splitTokens whole
  rw [splitTokens_gap_append (gap_of_blank blank), splitTokens_append_gap (gap_of_blank blank')] at split
  exact split.symm

/-! ## Brackets -/

/-- Whether a character opens or closes a vector. -/
def isBracket (c : Char) : Bool :=
  c ∈ ['(', ')', '[', ']']

/-- A token without brackets. -/
def Plain (token : List Char) : Prop :=
  Token token ∧ ∀ c ∈ token, isBracket c = false

theorem enclosed_stripBrackets (text : List Char) : Enclosed (stripBrackets text) text := by
  unfold stripBrackets
  split
  next inner =>
    split
    next closed =>
      obtain ⟨inner, rfl⟩ := List.getLast?_eq_some_iff.mp closed
      rw [List.dropLast_concat]
      exact .round
    next => exact .bare
  next inner =>
    split
    next closed =>
      obtain ⟨inner, rfl⟩ := List.getLast?_eq_some_iff.mp closed
      rw [List.dropLast_concat]
      exact .square
    next => exact .bare
  next => exact .bare

theorem stripBrackets_of_absent (absent : ∀ c ∈ text, isBracket c = false) :
    stripBrackets text = text := by
  unfold stripBrackets
  split
  next => exact absurd (absent '(' (by simp)) (by decide)
  next => exact absurd (absent '[' (by simp)) (by decide)
  next => rfl

theorem isBracket_eq_false {P : Char → Prop} {c : Char} (holds : P c) (round : ¬P '(' ∧ ¬P ')')
    (square : ¬P '[' ∧ ¬P ']') : isBracket c = false := by
  rw [isBracket, decide_eq_false_iff_not]
  intro bracket
  have one : c = '(' ∨ c = ')' ∨ c = '[' ∨ c = ']' := by simpa using bracket
  rcases one with rfl | rfl | rfl | rfl
  · exact round.1 holds
  · exact round.2 holds
  · exact square.1 holds
  · exact square.2 holds

theorem isBracket_of_gap (gap : Gap run) : ∀ c ∈ run, isBracket c = false := by
  intro c member
  have separator : isSeparator c = true := gap c member
  exact isBracket_eq_false (P := fun c => isSeparator c = true) separator (by decide) (by decide)

theorem isBracket_of_items (items : Items tokens text) (plain : ∀ token ∈ tokens, Plain token) :
    ∀ c ∈ text, isBracket c = false := by
  induction items with
  | none => simp
  | last token gap =>
    exact List.forall_mem_append.mpr ⟨(plain token (by simp)).2, isBracket_of_gap gap⟩
  | more token gap apart items inductionHypothesis =>
    obtain ⟨first, others⟩ := List.forall_mem_cons.mp plain
    exact List.forall_mem_append.mpr ⟨first.2,
      List.forall_mem_append.mpr ⟨isBracket_of_gap gap, inductionHypothesis others⟩⟩

theorem isBracket_of_listed (listed : Listed tokens text) (plain : ∀ token ∈ tokens, Plain token) :
    ∀ c ∈ text, isBracket c = false := by
  obtain ⟨before, items, gap, items, rfl⟩ := listed
  exact List.forall_mem_append.mpr ⟨isBracket_of_gap gap, isBracket_of_items items plain⟩

/-! ## The tokens of a vector -/

/-- The tokens that the reader finds in a text. -/
def tokensOf (text : List Char) : List (List Char) :=
  splitTokens (stripBrackets (trimBlanks text))

theorem spells_tokensOf (text : List Char) : Spells (tokensOf text) text := by
  obtain ⟨before, after, blank, blank', whole⟩ := exists_trimBlanks text
  exact ⟨before, _, _, after, blank, blank', listed_splitTokens _, enclosed_stripBrackets _, whole⟩

/-- Plain tokens are found again, however they are laid out. -/
theorem tokensOf_of_spells (spells : Spells tokens text) (plain : ∀ token ∈ tokens, Plain token) :
    tokensOf text = tokens := by
  obtain ⟨before, inner, enclosed, after, blank, blank', listed, brackets, rfl⟩ := spells
  have split : splitTokens inner = tokens :=
    splitTokens_listed listed fun token member => (plain token member).1
  rw [tokensOf, trimBlanks_blank_append blank, trimBlanks_append_blank blank']
  cases brackets with
  | bare =>
    -- Only the blanks that the trimmed text has lost can tell it from the list.
    obtain ⟨_, _, _, _, whole⟩ := exists_trimBlanks inner
    have absent : ∀ c ∈ trimBlanks inner, isBracket c = false := by
      intro c member
      apply isBracket_of_listed listed plain
      rw [whole]
      simp [member]
    rw [stripBrackets_of_absent absent, splitTokens_trimBlanks, split]
  | round =>
    rw [trimBlanks_between inner (by decide) (by decide)]
    simpa [stripBrackets] using split
  | square =>
    rw [trimBlanks_between inner (by decide) (by decide)]
    simpa [stripBrackets] using split

/-- The brackets of a vector are one matching pair, if there are any. -/
theorem brackets_of_spells (spells : Spells tokens text) (plain : ∀ token ∈ tokens, Plain token) :
    text.filter isBracket ∈ [[], ['(', ')'], ['[', ']']] := by
  obtain ⟨before, inner, enclosed, after, blank, blank', listed, brackets, rfl⟩ := spells
  have outside : ∀ {chars : List Char}, (∀ c ∈ chars, isBracket c = false) →
      chars.filter isBracket = [] := fun absent => by simpa using absent
  rw [List.filter_append, List.filter_append, outside (isBracket_of_gap (gap_of_blank blank)),
    outside (isBracket_of_gap (gap_of_blank blank')), List.nil_append, List.append_nil]
  have bare := outside (isBracket_of_listed listed plain)
  cases brackets with
  | bare => simp [bare]
  | round => simp [bare, isBracket]
  | square => simp [bare, isBracket]

theorem plain_of_readReal {p : Precision} {x : Floating p} (read : readReal p text = some x) :
    Plain text := by
  have visible : text ≠ [] := by
    rintro rfl
    contradiction
  have numeral : ∀ c ∈ text, NumeralChar c := numeral_of_readReal read
  refine ⟨⟨visible, fun c member => (numeral c member).inside⟩, fun c member => ?_⟩
  exact isBracket_eq_false (numeral c member) (by unfold NumeralChar; decide)
    (by unfold NumeralChar; decide)

end

/-! ## Reading -/

section

variable {dimension : Dimension} {p : Precision} {text other : List Char}
  {tokens : List (List Char)} {content : Vector (Floating p) dimension.count}

theorem mapM_eq_some_iff_map {α β : Type} {f : α → Option β} {xs : List α} {ys : List β} :
    xs.mapM f = some ys ↔ xs.map f = ys.map some := by
  rw [mapM_eq_some_iff, ← List.forall₂_eq_eq_eq, List.forall₂_map_left_iff, List.forall₂_map_right_iff]

theorem readVector_eq_some_iff : readVector dimension p text = some content ↔
    (tokensOf text).map (readReal p) = content.toList.map some := by
  rw [← mapM_eq_some_iff_map, tokensOf]
  constructor
  · intro read
    simp only [readVector] at read
    obtain ⟨_, read⟩ := Option.ite_none_right_eq_some.mp read
    split at read
    next components all =>
      obtain ⟨_, same⟩ := Option.dite_none_right_eq_some.mp read
      obtain rfl := Option.some.inj same
      exact all
    next => contradiction
  · intro read
    have count := length_of_mapM read
    rw [Vector.length_toList] at count
    have filled : content.toList.toArray = content.toArray := Array.toArray_toList
    simp [readVector, count, read, filled]

theorem readVector_eq_of_tokensOf (same : tokensOf text = tokensOf other) :
    readVector dimension p text = readVector dimension p other := by
  rw [tokensOf, tokensOf] at same
  simp only [readVector, same]

theorem plain_of_map_readReal (read : tokens.map (readReal p) = content.toList.map some) :
    ∀ token ∈ tokens, Plain token := by
  intro token member
  have image : readReal p token ∈ content.toList.map some := read ▸ List.mem_map_of_mem member
  obtain ⟨x, _, found⟩ := List.mem_map.mp image
  exact plain_of_readReal found.symm

theorem readVector_iff_spells : readVector dimension p text = some content ↔
    ∃ tokens, Spells tokens text ∧ tokens.map (readReal p) = content.toList.map some := by
  rw [readVector_eq_some_iff]
  constructor
  · exact fun read => ⟨_, spells_tokensOf text, read⟩
  · rintro ⟨tokens, spells, read⟩
    rwa [tokensOf_of_spells spells (plain_of_map_readReal read)]

theorem readVector_of_spells (plain : ∀ token ∈ tokens, Plain token) (spells : Spells tokens text)
    (spells' : Spells tokens other) : readVector dimension p text = readVector dimension p other := by
  apply readVector_eq_of_tokensOf
  rw [tokensOf_of_spells spells plain, tokensOf_of_spells spells' plain]

theorem readVector_of_count (plain : ∀ token ∈ tokens, Plain token) (spells : Spells tokens text)
    (count : tokens.length ≠ dimension.count) : readVector dimension p text = none := by
  rw [Option.eq_none_iff_forall_ne_some]
  intro content read
  rw [readVector_eq_some_iff, tokensOf_of_spells spells plain] at read
  have length_eq := congrArg List.length read
  rw [List.length_map, List.length_map, Vector.length_toList] at length_eq
  exact count length_eq

theorem readVector_of_brackets (unmatched : text.filter isBracket ∉ [[], ['(', ')'], ['[', ']']]) :
    readVector dimension p text = none := by
  rw [Option.eq_none_iff_forall_ne_some]
  intro content read
  obtain ⟨tokens, spells, values⟩ := readVector_iff_spells.mp read
  exact unmatched (brackets_of_spells spells (plain_of_map_readReal values))

end

end VectorText

/-! ## The kind of a vector -/

open VectorText in
/-- A text is read as a vector exactly if it spells as many numbers as the vector has, and these are
    then its components in order.  Tokens that could stand in a vector are read alike in every
    layout, and refused if there are too few or too many of them, as is any text whose brackets are
    not one matching pair or none. -/
theorem Kind.read_vector_iff_spells (dimension : Dimension) (p : Precision) :
    (∀ (text : String) (content : Vector (Floating p) dimension.count),
      (Kind.vector dimension p).read text = some content ↔
        ∃ tokens, Spells tokens text.toList ∧
          tokens.map (readReal p) = content.toList.map some) ∧
    (∀ (tokens : List (List Char)) (text other : String), (∀ token ∈ tokens, Plain token) →
      Spells tokens text.toList → Spells tokens other.toList →
        (Kind.vector dimension p).read text = (Kind.vector dimension p).read other) ∧
    (∀ (tokens : List (List Char)) (text : String), (∀ token ∈ tokens, Plain token) →
      Spells tokens text.toList → tokens.length ≠ dimension.count →
        (Kind.vector dimension p).read text = none) ∧
    ∀ text : String, text.toList.filter isBracket ∉ [[], ['(', ')'], ['[', ']']] →
      (Kind.vector dimension p).read text = none := by
  have read_eq : ∀ text : String,
      (Kind.vector dimension p).read text = readVector dimension p text.toList := fun _ => rfl
  simp only [read_eq]
  refine ⟨?_, ?_, ?_, ?_⟩
  · intro text content
    exact readVector_iff_spells
  · intro tokens text other plain spells spells'
    exact readVector_of_spells plain spells spells'
  · intro tokens text plain spells count
    exact readVector_of_count plain spells count
  · intro text unmatched
    exact readVector_of_brackets unmatched

open VectorText in
/-- Two layouts of one pair of numbers, which is too short for a vector of three, and a pair whose
    brackets differ. -/
theorem Kind.read_vector_iff_spells_layouts :
    (∀ token ∈ ["1".toList, ".5".toList], Plain token) ∧
      Spells ["1".toList, ".5".toList] "1\t.5".toList ∧
      Spells ["1".toList, ".5".toList] " [,1 ,.5]".toList ∧
      (Kind.vector .two .single).read " [,1 ,.5]" = (Kind.vector .two .single).read "1\t.5" ∧
      ((Kind.vector .two .single).read "1\t.5").isSome = true ∧
      (Kind.vector .three .single).read "1\t.5" = none ∧
      "(1 .5]".toList.filter isBracket = ['(', ']'] ∧
      (Kind.vector .two .single).read "(1 .5]" = none := by
  have number : ∀ token, (readReal .single token).isSome = true → Plain token :=
    fun token read => plain_of_readReal (Option.some_get read).symm
  have plain : ∀ token ∈ ["1".toList, ".5".toList], Plain token :=
    List.forall_mem_cons.mpr ⟨number _ (by decide +kernel),
      List.forall_mem_singleton.mpr (number _ (by decide +kernel))⟩
  have found : tokensOf "1\t.5".toList = ["1".toList, ".5".toList] := by decide +kernel
  have found' : tokensOf " [,1 ,.5]".toList = ["1".toList, ".5".toList] := by decide +kernel
  have bare := spells_tokensOf "1\t.5".toList
  have square := spells_tokensOf " [,1 ,.5]".toList
  rw [found] at bare
  rw [found'] at square
  obtain ⟨_, alike, _, unmatched⟩ := Kind.read_vector_iff_spells .two .single
  obtain ⟨_, _, count, _⟩ := Kind.read_vector_iff_spells .three .single
  have brackets : "(1 .5]".toList.filter isBracket = ['(', ']'] := by decide
  exact ⟨plain, bare, square, alike _ _ _ plain square bare, by decide +kernel,
    count _ _ plain bare (by decide), brackets, unmatched _ (by rw [brackets]; decide)⟩

end LinkedTables
