import LinkedTables.Proofs.TextTables
import LinkedTables.Proofs.VectorTexts
import Mathlib.Data.List.Perm.Subperm

/-! # Cells that come back from their texts

Every kind reads what it shows.  A vector is shown as the list of its numbers in brackets, which is
one of the layouts in which they are read.  So a column reads each text that one of its rows shows
as the value of the row, and an empty column that is given all of these texts shows what the column
shows. -/

namespace LinkedTables

/-! ## Vectors -/

theorem Kind.commaSeparated_cons (text next : List Char) (rest : List (List Char)) :
    commaSeparated (text :: next :: rest) =
      text ++ ',' :: ' ' :: commaSeparated (next :: rest) := by
  rw [commaSeparated, List.intercalate_cons_cons, List.append_assoc]
  rfl

theorem items_commaSeparated (texts : List (List Char)) :
    VectorText.Items texts (Kind.commaSeparated texts) := by
  have gap : VectorText.Gap [',', ' '] := fun c => List.all_eq_true.mp (by decide) c
  induction texts with
  | nil => exact .none
  | cons text rest inductionHypothesis =>
    cases rest with
    | nil =>
      have single : Kind.commaSeparated [text] = text ++ [] := by simp [Kind.commaSeparated]
      rw [single]
      exact .last text (List.forall_mem_nil _)
    | cons next rest =>
      rw [Kind.commaSeparated_cons]
      exact .more text gap (List.cons_ne_nil _ _) inductionHypothesis

@[simp] theorem readVector_displayChars {dimension : Dimension} {p : Precision}
    (components : Vector (Floating p) dimension.count) :
    readVector dimension p ((Kind.vector dimension p).displayChars components) =
      some components := by
  have read : (components.toList.map Floating.displayChars).map (readReal p) =
      components.toList.map some := by
    rw [List.map_map]
    exact List.map_congr_left fun x _ => x.readReal_displayChars
  refine VectorText.readVector_iff_spells.mpr ⟨_, ?_, read⟩
  exact ⟨[], _, _, [], List.forall_mem_nil _, List.forall_mem_nil _,
    ⟨[], _, List.forall_mem_nil _, items_commaSeparated _, rfl⟩, .round, by simp [Kind.displayChars]⟩

/-! ## Kinds -/

@[simp] theorem readNatural_toDigits (n : Nat) : readNatural (Nat.toDigits 10 n) = some n := by
  have digits := isDigit_toDigits n
  have read := readDigits_toDigits n
  cases shown : Nat.toDigits 10 n with
  | nil => exact absurd shown Nat.toDigits_ne_nil
  | cons c rest =>
    rw [shown] at digits read
    have notPlus := (ne_sign_of_isDigit (digits c (by simp))).2
    rw [readNatural, read]
    simp [notPlus]

namespace Kind

@[simp] theorem read_display_unsigned {width : Width} (n : Unsigned width) :
    (Kind.unsigned width).read ((Kind.unsigned width).display n) = some n := by
  have visible : ∀ c ∈ Nat.toDigits 10 n.val, isBlank c = false :=
    fun c member => isBlank_of_inside (isSeparator_of_isDigit (isDigit_toDigits _ c member))
  rw [Kind.read, Kind.display, String.toList_ofList, displayChars, trimBlanks_of_visible visible,
    readBelow, readNatural_toDigits]
  exact dif_pos n.isLt

/-- A content is read from its text, whatever its kind. -/
theorem read_display (kind : Kind) (content : kind.Content) :
    kind.read (kind.display content) = some content := by
  cases kind with
  | boolean => cases content <;> decide
  | signed width => exact (read_display_signed content).trans (dif_pos content.property)
  | unsigned width => exact read_display_unsigned content
  | floating p => exact read_display_floating content
  | vector dimension p =>
    rw [Kind.read, Kind.display, String.toList_ofList]
    exact readVector_displayChars content

end Kind

/-! ## Rows -/

namespace Column

variable {column start next before after : Column} {row : Nat} {text : String} {texts : List String}
  {value : Value}

theorem value_beyond (shownAsText : Bool) (beyond : column.size ≤ row) :
    column.value shownAsText row = .error (.rowOutOfRange row column.size) := by
  cases column with
  | plain plain =>
    have none : plain.buffer.cells[row]? = none := Array.getElem?_eq_none beyond
    simp [Column.value, PlainColumn.value, Buffer.get?, none]
  | categorical table =>
    have none : table.codes[row]? = none := Array.getElem?_eq_none beyond
    cases shownAsText <;>
      simp [Column.value, CategoricalColumn.text, CategoricalColumn.code, none, Except.map]
  | index index =>
    have none : index.ids[row]? = none := Array.getElem?_eq_none beyond
    simp [Column.value, IndexColumn.id, none, Except.map]

theorem read_display (shown : column.value true row = .ok value) :
    column.read value.display = .ok value := by
  cases column with
  | plain plain =>
    obtain ⟨content, _, rfl⟩ := value_plain.mp shown
    simp [Column.read, PlainColumn.read, Buffer.read, Value.display, Kind.read_display]
  | categorical table =>
    obtain ⟨_, text, _, _, rfl⟩ := value_text.mp shown
    rfl
  | index index =>
    obtain ⟨id, _, rfl⟩ := value_identity.mp shown
    simp [Column.read, Value.ofIdentity, Value.display, Kind.read_display]

/-! ## Columns of one kind -/

/-- Columns that store cells of one kind in one way. -/
inductive Alike : Column → Column → Prop where
  | plain {a b : PlainColumn} (same : a.kind = b.kind) : Alike (.plain a) (.plain b)
  | categorical (a b : CategoricalColumn) : Alike (.categorical a) (.categorical b)
  | index (a b : IndexColumn) : Alike (.index a) (.index b)

theorem Alike.refl (column : Column) : column.Alike column := by
  cases column with
  | plain column => exact .plain rfl
  | categorical column => exact .categorical column column
  | index column => exact .index column column

theorem Alike.trans (first : before.Alike column) (second : column.Alike after) :
    before.Alike after := by
  cases first with
  | plain same =>
    cases second with
    | plain same' => exact .plain (same.trans same')
  | categorical =>
    cases second with
    | categorical => exact .categorical _ _
  | index =>
    cases second with
    | index => exact .index _ _

theorem Grown.alike (grown : Grown value before after) : before.Alike after := by
  cases grown with
  | plain => exact .plain rfl
  | category | newCategory => exact .categorical _ _
  | index => exact .index _ _

theorem Alike.read_ok (alike : column.Alike start) (read : column.read text = .ok value) :
    start.read text = .ok value := by
  cases alike with
  | @plain a b same =>
    obtain ⟨header, ⟨kind, cells⟩, computed, custom⟩ := a
    obtain ⟨header', ⟨kind', cells'⟩, computed', custom'⟩ := b
    obtain rfl : kind = kind' := same
    simp only [Column.read, PlainColumn.read, Buffer.read] at read ⊢
    cases content : kind.read text with
    | none => simp [content] at read
    | some _ => simpa [content] using read
  | categorical => exact read
  | index a b =>
    simp only [Column.read] at read ⊢
    split at read
    next => exact read
    next => contradiction

/-! ## A run of texts -/

/-- A column that has grown by texts. -/
structure Gained (texts : List String) (before after : Column) : Prop where
  alike : before.Alike after
  size_eq : after.size = before.size + texts.length
  coded : after.Coded → before.Coded
  keeps : ∀ row value, before.value true row = .ok value → after.value true row = .ok value
  shows : after.Coded → ∀ offset text value, texts[offset]? = some text →
    before.read text = .ok value → after.value true (before.size + offset) = .ok value

theorem gained_pushTexts (reads : ∀ text ∈ texts, ∃ value, before.read text = .ok value) :
    ∃ after, pushTexts before texts = .ok after ∧ Gained texts before after := by
  induction texts generalizing before with
  | nil =>
    exact ⟨before, rfl, .refl before, rfl, id, fun _ _ shown => shown,
      fun _ _ _ _ none => by contradiction⟩
  | cons text texts inductionHypothesis =>
    obtain ⟨⟨value, read⟩, others⟩ := List.forall_mem_cons.mp reads
    obtain ⟨middle, pushed, grown⟩ := push_read read
    obtain ⟨after, rest, gained⟩ := inductionHypothesis fun other member => by
      rw [grown.read_eq]
      exact others other member
    refine ⟨after, by simp [pushTexts, pushText, read, pushed, rest],
      grown.alike.trans gained.alike, ?_, ?_, ?_, ?_⟩
    · rw [gained.size_eq, grown.size, List.length_cons]
      omega
    · exact fun coded => grown.coded (gained.coded coded)
    · exact fun row shown there => gained.keeps row shown (grown.value_of_ok there)
    · intro coded offset other shown there reads
      -- The text just taken stands where the column ended before, the others behind it.
      cases offset with
      | zero =>
        obtain rfl : text = other := Option.some.inj there
        obtain rfl : value = shown := Except.ok.inj (read.symm.trans reads)
        exact gained.keeps _ _ (grown.value_of_coded (gained.coded coded))
      | succ offset =>
        rw [← grown.read_eq] at reads
        have later := gained.shows coded offset other shown there reads
        rwa [grown.size, Nat.add_assoc, Nat.add_comm 1] at later

/-! ## Empty columns -/

/-- No category is known. -/
def Bare : Column → Prop
  | .categorical table => table.categories = #[]
  | .plain _ | .index _ => True

/-- A categorical column shows no more texts than there are codes, as each has the code of its row. -/
theorem length_eraseDups_le {table : CategoricalColumn}
    (shown : ∀ text ∈ texts, ∃ row, (Column.categorical table).display row = .ok text) :
    texts.eraseDups.length ≤ Width.count .w32 := by
  have among : texts.eraseDups ⊆ table.categories.toList.take (Width.count .w32) := by
    intro text member
    obtain ⟨row, displayed⟩ := shown text (List.mem_eraseDups.mp member)
    obtain ⟨code, _, named⟩ := display_category_iff.mp displayed
    refine List.mem_of_getElem? (i := code.val) ?_
    rw [List.getElem?_take_of_lt code.isLt, Array.getElem?_toList, named]
  exact (List.Nodup.subperm (nodup_eraseDups texts) among).length_le.trans
    (List.length_take_le _ _)

/-- So there are codes for them in a column that has no other categories. -/
theorem coded_of_bare (alike : column.Alike start) (empty : start.size = 0) (bare : start.Bare)
    (shown : ∀ text ∈ texts, ∃ row, column.display row = .ok text)
    (pushed : pushTexts start texts = .ok next) (gained : Gained texts start next) :
    next.Coded := by
  cases alike with
  | plain | index =>
    cases gained.alike
    trivial
  | categorical table fresh =>
    obtain ⟨header, codes, categories⟩ := fresh
    obtain rfl : codes = #[] := Array.eq_empty_of_size_eq_zero empty
    obtain rfl : categories = #[] := bare
    have accepted : ∀ text ∈ texts, Accepts none text := fun _ _ _ typed => by contradiction
    obtain ⟨after, pushed', holds⟩ := (holds_emptyColumn header none).pushTexts accepted
    obtain rfl : after = next := Except.ok.inj (pushed'.symm.trans pushed)
    cases holds with
    | categorical => exact length_eraseDups_le shown

/-! ## Rendered columns -/

/-- The texts that show the rows of a column. -/
def rendered (column : Column) : Except TableError (List String) :=
  (List.range column.size).mapM fun row => column.display row

theorem rendered_eq_ok_iff : column.rendered = .ok texts ↔ texts.length = column.size ∧
    ∀ row text, texts[row]? = some text → column.display row = .ok text := by
  rw [rendered, mapM_eq_ok_iff, List.forall₂_iff_get]
  simp only [List.length_range, List.get_eq_getElem, List.getElem_range]
  constructor
  · rintro ⟨count, shown⟩
    refine ⟨count.symm, fun row text there => ?_⟩
    obtain ⟨bound, rfl⟩ := List.getElem?_eq_some_iff.mp there
    exact shown row (count ▸ bound) bound
  · rintro ⟨count, shown⟩
    exact ⟨count.symm, fun row _ bound => shown row _ (List.getElem?_eq_getElem bound)⟩

theorem Named.rendered_ok (named : column.Named) : ∃ texts, column.rendered = .ok texts := by
  rw [rendered, exists_mapM_eq_ok_iff]
  intro row member
  obtain ⟨value, shown⟩ := named.value_ok (List.mem_range.mp member) true
  exact ⟨value.display, display_eq_ok_iff.mpr ⟨value, shown, rfl⟩⟩

/-- A column whose codes name categories reads what each of its rows shows as what the row holds, and
    an empty column of its kind takes all of these texts and then shows the same rows.  If it is a
    categorical one with categories left over, these must leave codes for the others. -/
theorem rendered_cells_read (column : Column) (named : column.Named) :
    (∀ row < column.size, ∃ text value, column.display row = .ok text ∧
      column.value true row = .ok value ∧ column.read text = .ok value) ∧
    ∃ texts, column.rendered = .ok texts ∧
      ∀ start, column.Alike start → start.size = 0 →
        ∃ next, pushTexts start texts = .ok next ∧ next.size = column.size ∧
          (start.Bare ∨ next.Coded → ∀ row, next.value true row = column.value true row) := by
  constructor
  · intro row bound
    obtain ⟨value, shown⟩ := named.value_ok bound true
    exact ⟨_, value, display_eq_ok_iff.mpr ⟨value, shown, rfl⟩, shown, read_display shown⟩
  · obtain ⟨texts, rendered⟩ := named.rendered_ok
    obtain ⟨count, displayed⟩ := rendered_eq_ok_iff.mp rendered
    refine ⟨texts, rendered, fun start alike empty => ?_⟩
    have reads : ∀ row text, texts[row]? = some text →
        ∃ value, column.value true row = .ok value ∧ start.read text = .ok value := by
      intro row text there
      obtain ⟨value, shown, rfl⟩ := display_eq_ok_iff.mp (displayed row text there)
      exact ⟨value, shown, alike.read_ok (read_display shown)⟩
    obtain ⟨next, pushed, gained⟩ := gained_pushTexts fun text member => by
      obtain ⟨row, there⟩ := List.mem_iff_getElem?.mp member
      obtain ⟨value, _, read⟩ := reads row text there
      exact ⟨value, read⟩
    have size_eq : next.size = column.size := by
      rw [gained.size_eq, empty, count, Nat.zero_add]
    refine ⟨next, pushed, size_eq, fun room row => ?_⟩
    -- Behind the last code a row would show another text than it has taken.
    have coded : next.Coded := by
      rcases room with bare | coded
      · refine coded_of_bare alike empty bare (fun text member => ?_) pushed gained
        obtain ⟨row, there⟩ := List.mem_iff_getElem?.mp member
        exact ⟨row, displayed row text there⟩
      · exact coded
    -- Rows that are not there are refused alike by columns of one size.
    by_cases bound : row < column.size
    · have there := List.getElem?_eq_getElem (count.symm ▸ bound)
      obtain ⟨value, shown, read⟩ := reads row _ there
      have stored := gained.shows coded row _ value there read
      rw [empty, Nat.zero_add] at stored
      rw [stored, shown]
    · rw [value_beyond true (Nat.not_lt.mp bound), value_beyond true (size_eq ▸ Nat.not_lt.mp bound),
        size_eq]

def direction : Column :=
  .plain (.ofBuffer "direction" ⟨.vector .two .single, #[#v[.nan, .zero true]]⟩)

def swapped : CategoricalColumn :=
  (((CategoricalColumn.ofTexts "name" ["a", "b"]).set 0 "b").2.set 1 "a").2

/-- Neither NaN nor the sign of a zero is lost from a vector, and texts are copied into a table that
    lists them in another order. -/
theorem rendered_cells_read_vector :
    direction.Named ∧ direction.display 0 = .ok "(NaN, -0)" ∧
      direction.read "(NaN, -0)" = .ok (.cell (.vector .two .single) #v[.nan, .zero true]) ∧
      (Column.categorical swapped).Named ∧
      ∃ texts next, (Column.categorical swapped).rendered = .ok texts ∧
        pushTexts (.categorical (.empty "copy")) texts = .ok next ∧
        next.value true 0 = .ok (.text "b") := by
  have shown : direction.display 0 = .ok "(NaN, -0)" := by decide +kernel
  have held : direction.value true 0 =
    .ok (.cell (.vector .two .single) #v[.nan, .zero true]) := rfl
  have named : (Column.categorical swapped).Named :=
    (((Built.fresh (.categorical "name" (.ofTexts ["a", "b"]))).step
      (.categorical (.direct (.set 0 "b")))).step (.categorical (.direct (.set 1 "a")))).named
  have first : (Column.categorical swapped).value true 0 = .ok (.text "b") :=
    value_text.mpr ⟨⟨1, by decide⟩, "b", by decide +kernel, by decide +kernel, rfl⟩
  refine ⟨trivial, shown, ?_, named, ?_⟩
  · obtain ⟨text, value, displayed, here, read⟩ :=
      (rendered_cells_read direction trivial).1 0 (by decide)
    obtain rfl := Except.ok.inj (displayed.symm.trans shown)
    obtain rfl := Except.ok.inj (here.symm.trans held)
    exact read
  · obtain ⟨texts, rendered, copies⟩ := (rendered_cells_read _ named).2
    obtain ⟨next, pushed, _, same⟩ :=
      copies (.categorical (.empty "copy")) (.categorical _ _) rfl
    exact ⟨texts, next, rendered, pushed, (same (.inl rfl) 0).trans first⟩

end Column

end LinkedTables
