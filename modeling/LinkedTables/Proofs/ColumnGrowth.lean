import LinkedTables.Column.Basic

/-! # How a column grows

`Column.Grown value before after` says what it means for a column to have grown by one cell: the
header and every earlier cell stay, and `value` stands at the end.  Appending a value that the
column has read from a text is never refused, and it is the only way in which a column of a frame
grows by a row. -/

namespace LinkedTables

namespace Column

/-- A column with one more cell at its end.  A plain column forgets its computed range, and a
    categorical column stores the place of the text, which becomes a category if it was none. -/
inductive Grown : Value → Column → Column → Prop where
  | plain (header : String) (kind : Kind) (cells : Array kind.Content)
      (computedRange customRange : Option Range) (content : kind.Content) :
      Grown (.cell kind content) (.plain ⟨header, ⟨kind, cells⟩, computedRange, customRange⟩)
        (.plain ⟨header, ⟨kind, cells.push content⟩, none, customRange⟩)
  | category (header : String) (codes : Array Code) {categories : Array String} {text : String}
      {place : Nat} (known : categories.idxOf? text = some place) :
      Grown (.text text) (.categorical ⟨header, codes, categories⟩)
        (.categorical ⟨header, codes.push (.ofPlace place), categories⟩)
  | newCategory (header : String) (codes : Array Code) {categories : Array String} {text : String}
      (unknown : text ∉ categories) :
      Grown (.text text) (.categorical ⟨header, codes, categories⟩)
        (.categorical ⟨header, codes.push (.ofPlace categories.size), categories.push text⟩)
  | index (header : String) (ids : Array Identity) (greatest : Option Identity) (id : Identity) :
      Grown (.ofIdentity id) (.index ⟨header, ids, greatest⟩)
        (.index ⟨header, ids.push id, Identity.raise greatest id⟩)

/-! ## What a value appended to a column leaves behind -/

theorem push_cell (header : String) (kind : Kind) (cells : Array kind.Content)
    (computedRange customRange : Option Range) (content : kind.Content) :
    push (.cell kind content) (.plain ⟨header, ⟨kind, cells⟩, computedRange, customRange⟩) =
      (.ok (), .plain ⟨header, ⟨kind, cells.push content⟩, none, customRange⟩) := by
  simp [push, PlainColumn.push, PlainColumn.tryModify, PlainColumn.touch, Buffer.push?,
    Value.content?]

/-- The category table finds a text or gains it; the code is the place of the text either way. -/
theorem push_text (column : CategoricalColumn) (text : String) :
    ∃ next, push (.text text) (.categorical column) = (.ok (), next) ∧
      Grown (.text text) (.categorical column) next := by
  obtain ⟨header, codes, categories⟩ := column
  cases found : categories.idxOf? text with
  | some place =>
    refine ⟨_, ?_, .category header codes found⟩
    simp [push, CategoricalColumn.add, CategoricalColumn.addCategory, CategoricalColumn.codeOf?,
      found]
  | none =>
    have unknown : text ∉ categories := by simpa using found
    refine ⟨_, ?_, .newCategory header codes unknown⟩
    simp [push, CategoricalColumn.add, CategoricalColumn.addCategory, CategoricalColumn.codeOf?,
      found]

@[simp] theorem push_identity (index : IndexColumn) (id : Identity) :
    push (.ofIdentity id) (.index index) = (.ok (), .index (index.push id)) := by
  simp [push, Value.ofIdentity, Value.content?]

theorem grown_identity (index : IndexColumn) (id : Identity) :
    Grown (.ofIdentity id) (.index index) (.index (index.push id)) :=
  .index index.header index.ids index.greatest id

/-- What a column has read from a text it does not refuse. -/
theorem push_read {column : Column} {text : String} {value : Value}
    (read : column.read text = .ok value) :
    ∃ next, column.push value = (.ok (), next) ∧ Grown value column next := by
  cases column with
  | plain column =>
    obtain ⟨header, ⟨kind, cells⟩, computedRange, customRange⟩ := column
    simp only [Column.read, PlainColumn.read, Buffer.read] at read
    cases content : kind.read text with
    | none => simp [content] at read
    | some content' =>
      simp only [content, Option.map_some, Except.ok.injEq] at read
      subst read
      exact ⟨_, push_cell .., .plain ..⟩
  | categorical column =>
    simp only [Column.read, Except.ok.injEq] at read
    subst read
    exact push_text column text
  | index index =>
    simp only [Column.read] at read
    split at read
    next id _ =>
      cases read
      exact ⟨_, push_identity index id, grown_identity index id⟩
    next => contradiction

/-- Only a text that a column does not read is refused, and the refusal names the column, the
    text and the kind. -/
theorem read_error {column : Column} {text : String} {cause : TableError}
    (refused : column.read text = .error cause) :
    cause = .notConvertible column.header text column.kind.name := by
  cases column with
  | plain column =>
    simp only [Column.read, PlainColumn.read] at refused
    split at refused
    · contradiction
    · cases refused
      rfl
  | categorical column => simp [Column.read] at refused
  | index index =>
    simp only [Column.read] at refused
    split at refused
    · contradiction
    · cases refused
      rfl

/-! ## What a row shows -/

theorem value_plain {column : PlainColumn} {texts : Bool} {row : Nat} {shown : Value} :
    (Column.plain column).value texts row = .ok shown ↔
      ∃ content, column.buffer.cells[row]? = some content ∧
        shown = .cell column.buffer.kind content := by
  simp only [Column.value, PlainColumn.value, Buffer.get?]
  cases column.buffer.cells[row]? <;> simp [eq_comm]

theorem value_code {column : CategoricalColumn} {row : Nat} {shown : Value} :
    (Column.categorical column).value false row = .ok shown ↔
      ∃ code, column.codes[row]? = some code ∧ shown = .ofCode code := by
  simp only [Column.value, CategoricalColumn.code]
  cases column.codes[row]? <;> simp [Except.map, eq_comm]

theorem value_text {column : CategoricalColumn} {row : Nat} {shown : Value} :
    (Column.categorical column).value true row = .ok shown ↔
      ∃ code text, column.codes[row]? = some code ∧ column.categories[code.val]? = some text ∧
        shown = .text text := by
  simp only [Column.value, CategoricalColumn.text]
  cases column.codes[row]? with
  | none => simp [Except.map]
  | some code => cases text : column.categories[code.val]? <;> simp [Except.map, text, eq_comm]

theorem value_identity {column : IndexColumn} {texts : Bool} {row : Nat} {shown : Value} :
    (Column.index column).value texts row = .ok shown ↔
      ∃ id, column.ids[row]? = some id ∧ shown = .ofIdentity id := by
  simp only [Column.value, IndexColumn.id]
  cases column.ids[row]? <;> simp [Except.map, eq_comm]

/-! ## What stays and what is new -/

theorem getElem?_push_of_some {α : Type} {cells : Array α} {row : Nat} {cell last : α}
    (present : cells[row]? = some cell) : (cells.push last)[row]? = some cell := by
  obtain ⟨bound, _⟩ := Array.getElem?_eq_some_iff.mp present
  rwa [Array.getElem?_push_lt bound, ← Array.getElem?_eq_getElem bound]

theorem getElem?_of_idxOf? {categories : Array String} {text : String} {place : Nat}
    (known : categories.idxOf? text = some place) : categories[place]? = some text := by
  have listed : categories = categories.toList.toArray := rfl
  rw [listed, List.idxOf?_toArray, List.idxOf?_eq_some_iff] at known
  obtain ⟨bound, there, _⟩ := known
  rw [← Array.getElem?_toList]
  exact List.getElem?_eq_some_iff.mpr ⟨bound, there⟩

namespace Grown

variable {value : Value} {before after : Column}

theorem header (grown : Grown value before after) : after.header = before.header := by
  cases grown <;> rfl

theorem format (grown : Grown value before after) : after.format = before.format := by
  cases grown <;> rfl

theorem size (grown : Grown value before after) : after.size = before.size + 1 := by
  cases grown <;> exact Array.size_push ..

theorem value_of_ok (grown : Grown value before after) {texts : Bool} {row : Nat} {shown : Value}
    (there : before.value texts row = .ok shown) : after.value texts row = .ok shown := by
  -- Cells, codes and categories are added at the end, so what was found before is found again.
  cases grown with
  | plain header kind cells computedRange customRange content =>
    obtain ⟨cell, present, equal⟩ := value_plain.mp there
    exact value_plain.mpr ⟨cell, getElem?_push_of_some present, equal⟩
  | category header codes known =>
    cases texts with
    | false =>
      obtain ⟨code, present, equal⟩ := value_code.mp there
      exact value_code.mpr ⟨code, getElem?_push_of_some present, equal⟩
    | true =>
      obtain ⟨code, text, present, named, equal⟩ := value_text.mp there
      exact value_text.mpr ⟨code, text, getElem?_push_of_some present, named, equal⟩
  | newCategory header codes unknown =>
    cases texts with
    | false =>
      obtain ⟨code, present, equal⟩ := value_code.mp there
      exact value_code.mpr ⟨code, getElem?_push_of_some present, equal⟩
    | true =>
      obtain ⟨code, text, present, named, equal⟩ := value_text.mp there
      exact value_text.mpr
        ⟨code, text, getElem?_push_of_some present, getElem?_push_of_some named, equal⟩
  | index header ids greatest id =>
    obtain ⟨cell, present, equal⟩ := value_identity.mp there
    exact value_identity.mpr ⟨cell, getElem?_push_of_some present, equal⟩

/-- The new cell shows the value.  The place of a text is its code only as long as there are codes
    for all categories, the one that the text becomes included. -/
theorem value_new (grown : Grown value before after)
    (coded : ∀ column, after = .categorical column → column.categories.size ≤ Width.count .w32) :
    after.value true before.size = .ok value := by
  cases grown with
  | plain header kind cells computedRange customRange content =>
    exact value_plain.mpr ⟨content, Array.getElem?_push_size, rfl⟩
  | @category header codes categories text place known =>
    have there := getElem?_of_idxOf? known
    obtain ⟨bound, _⟩ := Array.getElem?_eq_some_iff.mp there
    have small : place < Width.count .w32 := Nat.lt_of_lt_of_le bound (coded _ rfl)
    refine value_text.mpr ⟨_, text, Array.getElem?_push_size, ?_, rfl⟩
    simpa only [Code.ofPlace, Nat.mod_eq_of_lt small] using there
  | @newCategory header codes categories text unknown =>
    have room := coded _ rfl
    rw [Array.size_push] at room
    refine value_text.mpr ⟨_, text, Array.getElem?_push_size, ?_, rfl⟩
    simp only [Code.ofPlace, Nat.mod_eq_of_lt room]
    exact Array.getElem?_push_size
  | index header ids greatest id =>
    exact value_identity.mpr ⟨id, Array.getElem?_push_size, rfl⟩

/-- A column with a code to spare has one for every text. -/
theorem value_last (grown : Grown value before after)
    (coded : ∀ column, before = .categorical column → column.categories.size < Width.count .w32) :
    after.value true before.size = .ok value := by
  refine grown.value_new fun column equal => ?_
  cases grown with
  | plain | index => contradiction
  | category header codes known =>
    have room := coded _ rfl
    cases equal
    exact Nat.le_of_lt room
  | newCategory header codes unknown =>
    have room := coded _ rfl
    cases equal
    rwa [Array.size_push]

theorem read_eq (grown : Grown value before after) (text : String) :
    after.read text = before.read text := by
  cases grown <;> rfl

theorem push_eq (grown : Grown value before after) : before.push value = (.ok (), after) := by
  cases grown with
  | plain => exact push_cell ..
  | category header codes known =>
    simp [push, CategoricalColumn.add, CategoricalColumn.addCategory, CategoricalColumn.codeOf?,
      known]
  | @newCategory header codes categories text unknown =>
    have none : categories.idxOf? text = none := by simpa using unknown
    simp [push, CategoricalColumn.add, CategoricalColumn.addCategory, CategoricalColumn.codeOf?,
      none]
  | index => exact push_identity ..

end Grown

end Column

end LinkedTables
