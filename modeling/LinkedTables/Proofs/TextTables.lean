import LinkedTables.Proofs.AppendedRows
import LinkedTables.Proofs.PlainIntegers
import LinkedTables.Proofs.ShownCells

/-! # Tables that come back as texts

A table of texts becomes columns of kinds that are guessed, and its rows are shown as texts again.
Nothing is lost of plain whole numbers, since each is the text of the number that it is read as, and
nothing of the texts of a categorical column, which are kept as they stand: trimming them is for the
guess alone.  What limits a categorical column is the number of codes, and nothing else. -/

namespace LinkedTables

/-! ## Columns -/

namespace Column

theorem display_eq_ok_iff {column : Column} {row : Nat} {text : String} :
    column.display row = .ok text ↔
      ∃ value, column.value true row = .ok value ∧ value.display = text := by
  rw [Column.display]
  cases column.value true row <;> simp [Except.map]

theorem display_category_iff {column : CategoricalColumn} {row : Nat} {text : String} :
    (Column.categorical column).display row = .ok text ↔
      ∃ code, column.codes[row]? = some code ∧ column.categories[code.val]? = some text := by
  rw [display_eq_ok_iff]
  constructor
  · rintro ⟨value, shown, rfl⟩
    obtain ⟨code, text, stored, named, rfl⟩ := value_text.mp shown
    exact ⟨code, stored, named⟩
  · rintro ⟨code, stored, named⟩
    exact ⟨.text text, value_text.mpr ⟨code, text, stored, named, rfl⟩, rfl⟩

namespace Holds

variable {header : String} {kind? : Option Kind} {texts : List String} {column : Column} {row : Nat}
  {text : String}

/-- A row of a categorical column shows its text exactly if there is a code for the place of the text
    among the categories. -/
theorem display_text_iff (holds : Holds header none texts column) (there : texts[row]? = some text) :
    column.display row = .ok text ↔ texts.eraseDups.idxOf text < Width.count .w32 := by
  have known : text ∈ texts.eraseDups := List.mem_eraseDups.mpr (List.mem_of_getElem? there)
  have bound := List.idxOf_lt_length_of_mem known
  have place := List.getElem?_idxOf known
  cases holds with
  | categorical =>
    have code : (codesOf texts).toArray[row]? =
        some (Code.ofPlace (texts.eraseDups.idxOf text)) := by simp [codesOf, there]
    rw [Column.display_category_iff]
    constructor
    · rintro ⟨code', stored, named⟩
      rw [code, Option.some.injEq] at stored
      subst stored
      rw [List.getElem?_toArray, ← place] at named
      -- No category stands at two places, so the code is the place itself.
      have same := (List.getElem?_inj bound (nodup_eraseDups texts)).mp named.symm
      rw [same]
      exact Fin.isLt _
    · intro small
      refine ⟨_, code, ?_⟩
      rw [Code.val_ofPlace small, List.getElem?_toArray, place]

/-- All rows of a categorical column show their texts exactly if there is a code for every category. -/
theorem display_texts_iff (holds : Holds header none texts column) :
    (∀ row text, texts[row]? = some text → column.display row = .ok text) ↔
      texts.eraseDups.length ≤ Width.count .w32 := by
  constructor
  · intro shown
    by_contra many
    -- The first category for which there is no code is not shown.
    have bound : Width.count .w32 < texts.eraseDups.length := Nat.not_le.mp many
    have known := List.mem_eraseDups.mp (List.getElem_mem bound)
    obtain ⟨row, there⟩ := List.mem_iff_getElem?.mp known
    have small := (holds.display_text_iff there).mp (shown row _ there)
    rw [(nodup_eraseDups texts).idxOf_getElem] at small
    exact Nat.lt_irrefl _ small
  · intro coded row text there
    have known : text ∈ texts.eraseDups := List.mem_eraseDups.mpr (List.mem_of_getElem? there)
    exact (holds.display_text_iff there).mpr
      (Nat.lt_of_lt_of_le (List.idxOf_lt_length_of_mem known) coded)

theorem display_integer {width : Width} (holds : Holds header (some (.signed width)) texts column)
    (there : texts[row]? = some text) (plain : PlainInteger text) :
    column.display row = .ok text := by
  obtain ⟨i, read, shown⟩ := holds.value_plain_eq there
  exact display_eq_ok_iff.mpr ⟨_, shown, plain.display_of_read read⟩

end Holds

end Column

theorem exists_width_of_plain {texts : List String} (doublePrecision : Bool) (nonempty : texts ≠ [])
    (plain : ∀ text ∈ texts, PlainInteger text) :
    ∃ width, inferKind texts doublePrecision = some (.signed width) := by
  by_cases narrow : ∀ text ∈ texts, (Kind.signed .w32).reads text
  · exact ⟨.w32, inferKind_eq_signed_iff.mpr ⟨.inl rfl, nonempty, narrow, nofun⟩⟩
  · refine ⟨.w64, inferKind_eq_signed_iff.mpr ⟨.inr rfl, nonempty, ?_, fun _ => ?_⟩⟩
    · exact fun text member => (plain text member).reads
    · simpa using narrow

namespace Frame

variable {headers : List String} {kinds : Nat → Option Kind} {width : Nat}
  {rows : List (List String)} {frame : Frame} {row : Nat} {texts : List String}

/-- The texts that show a row. -/
def shownTexts (frame : Frame) (row : Nat) : Except TableError (List String) :=
  (frame.row true row).map (List.map Value.display)

theorem shownTexts_eq_ok_iff :
    frame.shownTexts row = .ok texts ↔ row < frame.rows ∧
      List.Forall₂ (fun column text => column.display row = .ok text) frame.columns texts := by
  rw [shownTexts, Frame.row]
  split
  next bound =>
    rw [map_mapM, mapM_eq_ok_iff, and_iff_right bound]
    rfl
  next beyond => simp [beyond, Except.map]

namespace HoldsRows

theorem rows_eq_length (holds : HoldsRows headers kinds width rows frame) (positive : 0 < width) :
    frame.rows = rows.length :=
  longest_eq (fun _ member => holds.size_eq member) fun bare =>
    absurd bare (holds.columns_ne_nil positive)

/-- The rows come back exactly if the texts of each column do. -/
theorem shownTexts_iff (holds : HoldsRows headers kinds width rows frame) (positive : 0 < width) :
    (∀ row texts, rows[row]? = some texts → frame.shownTexts row = .ok texts) ↔
      ∀ (position : Nat) (column : Column), frame.columns[position]? = some column →
        ∀ row text, (textsAt rows position)[row]? = some text → column.display row = .ok text := by
  constructor
  · intro shown position column there row text here
    obtain ⟨inside, rfl⟩ := List.getElem?_eq_some_iff.mp there
    have bound : position < width := holds.length ▸ inside
    have row_bound : row < rows.length := by
      rw [← length_textsAt holds.rectangular bound]
      exact (List.getElem?_eq_some_iff.mp here).1
    have at_row := List.getElem?_eq_getElem row_bound
    obtain ⟨_, cells⟩ := shownTexts_eq_ok_iff.mp (shown row _ at_row)
    rw [getElem?_textsAt holds.rectangular bound at_row] at here
    obtain ⟨within, rfl⟩ := List.getElem?_eq_some_iff.mp here
    exact cells.get inside within
  · intro shown row texts there
    have row_bound := (List.getElem?_eq_some_iff.mp there).1
    have count := holds.rectangular texts (List.mem_of_getElem? there)
    rw [shownTexts_eq_ok_iff, holds.rows_eq_length positive, List.forall₂_iff_get]
    refine ⟨row_bound, holds.length.trans count.symm, fun position inside within => ?_⟩
    refine shown position _ (List.getElem?_eq_getElem inside) row _ ?_
    rw [getElem?_textsAt holds.rectangular (count ▸ within) there]
    exact List.getElem?_eq_getElem within

end HoldsRows

/-- A table of plain 64-bit whole numbers and of columns for which no kind is guessed comes back row
    by row and character by character, in either precision, exactly if no categorical column has more
    distinct texts than there are codes. -/
theorem ofTexts_shows_iff (rows : List (List String)) (headers : List String)
    (doublePrecision : Bool) (width : Nat) (sampled : rows ≠ []) (positive : 0 < width)
    (rectangular : ∀ row ∈ rows, row.length = width)
    (matching : headers = [] ∨ headers.length = width)
    (columns : ∀ position < width, (∀ text ∈ textsAt rows position, PlainInteger text) ∨
      inferKind (textsAt rows position) doublePrecision = none) :
    ∃ frame, ofTexts rows headers doublePrecision = .ok frame ∧ frame.rows = rows.length ∧
      ((∀ row texts, rows[row]? = some texts → frame.shownTexts row = .ok texts) ↔
        ∀ position < width, inferKind (textsAt rows position) doublePrecision = none →
          (textsAt rows position).eraseDups.length ≤ Width.count .w32) := by
  have width_eq := inferredWidth_eq sampled rectangular matching
  obtain ⟨frame, made, holds⟩ := ofTexts_holds rows headers doublePrecision
    (width_eq.symm ▸ rectangular)
  rw [width_eq] at holds
  refine ⟨frame, made, holds.rows_eq_length positive, ?_⟩
  rw [holds.shownTexts_iff positive]
  constructor
  · intro shown position bound guessed
    have there := List.getElem?_eq_getElem (holds.length.symm ▸ bound)
    have held := holds.holds position _ there
    rw [kindAt, guessed] at held
    exact held.display_texts_iff.mp (shown position _ there)
  · intro coded position column there
    have bound : position < width := holds.length ▸ (List.getElem?_eq_some_iff.mp there).1
    have held := holds.holds position column there
    rw [kindAt] at held
    -- Numbers are shown from their cells; only categories need codes.
    rcases columns position bound with plain | guessed
    · have nonempty : textsAt rows position ≠ [] := by
        rw [← List.length_pos_iff, length_textsAt rectangular bound, List.length_pos_iff]
        exact sampled
      obtain ⟨_, guessed⟩ := exists_width_of_plain doublePrecision nonempty plain
      rw [guessed] at held
      exact fun row text here => held.display_integer here (plain text (List.mem_of_getElem? here))
    · rw [guessed] at held
      exact held.display_texts_iff.mpr (coded position bound guessed)

/-- A wide column for the sake of its first number, a text with a number and blanks around it, and
    numbers none of which is finite. -/
def mixedRows : List (List String) :=
  [["-9223372036854775808", " 1 ", "inf"], ["0", "x", "NaN"]]

theorem ofTexts_shows_iff_mixed :
    ∃ frame, ofTexts mixedRows [] false = .ok frame ∧ frame.rows = 2 ∧
      frame.shownTexts 0 = .ok ["-9223372036854775808", " 1 ", "inf"] ∧
      frame.shownTexts 1 = .ok ["0", "x", "NaN"] := by
  have columns : ∀ position < 3, (∀ text ∈ textsAt mixedRows position, PlainInteger text) ∨
      inferKind (textsAt mixedRows position) false = none := by
    intro position bound
    match position with
    | 0 =>
      refine .inl (List.forall_mem_cons.mpr ⟨?_, List.forall_mem_singleton.mpr ?_⟩)
      · exact plainInteger_iff.mpr ⟨⟨-9223372036854775808, by decide⟩, by decide⟩
      · exact plainInteger_iff.mpr ⟨⟨0, by decide⟩, by decide⟩
    | 1 => exact .inr (by decide +kernel)
    | 2 => exact .inr (by decide +kernel)
  obtain ⟨frame, made, count, shown⟩ := ofTexts_shows_iff mixedRows [] false 3 (by decide)
    (by decide) (by decide) (.inl rfl) columns
  have returned := shown.mpr (by decide +kernel)
  exact ⟨frame, made, count, returned 0 _ rfl, returned 1 _ rfl⟩

end Frame

end LinkedTables
