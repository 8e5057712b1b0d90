import LinkedTables.Proofs.CsvReading
import LinkedTables.Proofs.CsvWriting
import LinkedTables.Proofs.IndexColumns
import Mathlib.Data.List.Forall2

/-! # Writing and reading a frame

What is written of a frame is read as the table of its rendered cells: no field is split, merged,
trimmed or dropped, and no row is skipped, whatever the headers, the categories and the delimiter
are, and also where columns are short.  The only thing that a reader adds is the index column. -/

namespace LinkedTables

namespace Csv

/-- The text that a cell is written as. -/
inductive Renders (column : Column) (row : Nat) : String → Prop where
  | shown {value : Value} (there : column.value true row = .ok value)
      (present : value.isMissing = false) : Renders column row value.display
  | missing {value : Value} (there : column.value true row = .ok value)
      (missing : value.isMissing = true) : Renders column row ""
  | short (beyond : column.size ≤ row) : Renders column row ""
  /-- A code without a text; no operation on a column leaves one behind. -/
  | uncoded {categorical : CategoricalColumn} {code : Code}
      (shape : column = .categorical categorical) (there : categorical.codes[row]? = some code)
      (unknown : categorical.categories[code.val]? = none) : Renders column row ""

/-- The cells of columns, each row in full. -/
structure Rendered (columns : List Column) (rows : Nat) (cells : List (List String)) : Prop where
  length : cells.length = rows
  renders : ∀ (row : Nat) (texts : List String), cells[row]? = some texts →
    List.Forall₂ (fun column text => Renders column row text) columns texts

/-- A column that gives no value for a row ends before it. -/
theorem renders_of_error {column : Column} {row : Nat} {cause : TableError}
    (refused : column.value true row = .error cause) : Renders column row "" := by
  cases column with
  | plain plain =>
    cases cell : plain.buffer.cells[row]? with
    | none => exact .short (Array.getElem?_eq_none_iff.mp cell)
    | some content =>
      rw [Column.value_plain.mpr ⟨content, cell, rfl⟩] at refused
      contradiction
  | categorical categorical =>
    cases code : categorical.codes[row]? with
    | none => exact .short (Array.getElem?_eq_none_iff.mp code)
    | some code' =>
      cases text : categorical.categories[code'.val]? with
      | none => exact .uncoded rfl code text
      | some text' =>
        rw [Column.value_text.mpr ⟨code', text', code, text, rfl⟩] at refused
        contradiction
  | index index =>
    cases id : index.ids[row]? with
    | none => exact .short (Array.getElem?_eq_none_iff.mp id)
    | some id' =>
      rw [Column.value_identity.mpr ⟨id', id, rfl⟩] at refused
      contradiction

theorem renders_cellText (row : Nat) (column : Column) :
    Renders column row (cellText row column) := by
  cases value : column.value true row with
  | ok value' =>
    cases missing : value'.isMissing with
    | true => simpa [cellText, value, missing] using Renders.missing value missing
    | false => simpa [cellText, value, missing] using Renders.shown value missing
  | error cause =>
    rw [cellText, value]
    exact renders_of_error value

def cellTexts (columns : List Column) (rows : Nat) : List (List String) :=
  (List.range rows).map fun row => columns.map (cellText row)

theorem rendered_cellTexts (columns : List Column) (rows : Nat) :
    Rendered columns rows (cellTexts columns rows) := by
  refine ⟨by simp [cellTexts], fun row texts there => ?_⟩
  rw [cellTexts, List.getElem?_map, Option.map_eq_some_iff] at there
  obtain ⟨row', atRow, rfl⟩ := there
  obtain ⟨inside, same⟩ := List.getElem?_eq_some_iff.mp atRow
  rw [List.getElem_range] at same
  subst same
  exact List.forall₂_map_right_iff.mpr
    (List.forall₂_same.mpr fun column _ => renders_cellText row column)

/-! ## Reading rows that are equally wide -/

section

variable {options : ReadOptions} {header : TextRecord} {records : List TextRecord}

/-- A file of a header and of records that are as wide either has a record behind the sample that
    does not fit, or becomes a table of its records. -/
theorem frameOfRecords_even_cases (given : options.hasHeader = true) (positive : header.cells ≠ [])
    (even : ∀ record ∈ records, record.cells.length = header.cells.length) :
    ((∃ place record, options.sampleSize ≤ place ∧ records[place]? = some record ∧
        ¬ Frame.AcceptsRow (options.kindOf ((header :: records).map .ok)) record.cells) ∧
      ∃ error, frameOfRecords options ((header :: records).map .ok) = .error error) ∨
    ∃ table, Frame.HoldsRows header.cells (options.kindOf ((header :: records).map .ok))
        header.cells.length (records.map (·.cells)) table ∧
      frameOfRecords options ((header :: records).map .ok) =
        .ok ⟨.index (.sequential Frame.indexHeader records.length) :: table.columns⟩ := by
  have evenAll : ∀ record ∈ header :: records, record.cells.length = header.cells.length := by
    simpa using even
  have nonempty : ∀ record, .ok record ∈ (header :: records).map (Except.ok (ε := Fault)) →
      record.cells ≠ [] := by
    intro record member
    obtain ⟨record', inside, same⟩ := List.mem_map.mp member
    cases same
    rw [← List.length_pos_iff, evenAll _ inside]
    exact List.length_pos_iff.mpr positive
  rcases frameOfRecords_cases options ((header :: records).map .ok) nonempty with
    ⟨error, ⟨place, ⟨entry, there, offends⟩, _⟩, refused⟩ | ⟨found, table, tabulates, made⟩
  · refine .inl ⟨?_, error, refused⟩
    obtain ⟨record, atPlace, rfl⟩ := Option.map_eq_some_iff.mp (List.getElem?_map ▸ there)
    -- The widths are right, so it is a text behind the sample that is at fault.
    by_contra fitting
    refine not_offends (evenAll _ (List.mem_of_getElem? atPlace)) (fun settled => ?_) offends
    by_contra unfit
    rw [ReadOptions.headerSize_of_header given] at settled
    obtain ⟨place, rfl⟩ := Nat.exists_eq_add_of_le settled
    rw [Nat.add_assoc, Nat.add_comm 1, List.getElem?_cons_succ] at atPlace
    exact fitting ⟨options.sampleSize + place, record, Nat.le_add_right .., atPlace, unfit⟩
  · obtain rfl : header :: records = found :=
      List.map_injective_iff.mpr (fun _ _ same => Except.ok.inj same) tabulates.readable
    have behind : (header :: records).drop options.headerSize = records := by
      rw [ReadOptions.headerSize_of_header given, List.drop_succ_cons, List.drop_zero]
    have headers : options.headersOf ((header :: records).map .ok) = header.cells :=
      ReadOptions.headersOf_of_header given
    have holds := tabulates.holds
    rw [behind, headers] at holds
    rw [behind] at made
    exact .inr ⟨table, holds, made⟩

theorem kindOf_records (given : options.hasHeader = true) (header : TextRecord)
    (records : List TextRecord) :
    options.kindOf ((header :: records).map .ok) =
      kindAt options.inference.doublePrecision
        ((records.map (·.cells)).take options.sampleSize) := by
  funext position
  rw [ReadOptions.kindOf, ReadOptions.headerSize_of_header given, List.map_cons,
    List.drop_succ_cons, List.drop_zero, ← List.map_take, cellsOf_map_ok, List.map_take]

/-- If all records belong to the sample, the table is the one that is made of them at once. -/
theorem frameOfRecords_sampled (given : options.hasHeader = true) (positive : header.cells ≠ [])
    (even : ∀ record ∈ records, record.cells.length = header.cells.length)
    (few : records.length ≤ options.sampleSize) :
    ∃ table frame, Frame.ofTexts (records.map (·.cells)) header.cells
        options.inference.doublePrecision = .ok table ∧
      table.updateIndex = (.ok (), frame) ∧
      frameOfRecords options ((header :: records).map .ok) = .ok frame := by
  have wide : Frame.inferredWidth (records.map (·.cells)) header.cells = header.cells.length := by
    cases cells : header.cells with
    | nil => contradiction
    | cons text texts => rfl
  obtain ⟨table, tabled, holds⟩ := Frame.ofTexts_holds (records.map (·.cells)) header.cells
    options.inference.doublePrecision (fun row member => by
      obtain ⟨record, inside, rfl⟩ := List.mem_map.mp member
      rw [wide, even record inside])
  rcases frameOfRecords_even_cases given positive even with
    ⟨⟨place, record, behind, there, _⟩, _⟩ | ⟨table', holds', made⟩
  · have inside := (List.getElem?_eq_some_iff.mp there).1
    omega
  · rw [kindOf_records given, List.take_of_length_le (by simpa using few)] at holds'
    rw [wide] at holds
    -- Rows, headers and kinds determine a frame.
    obtain rfl := holds.unique holds'
    have covered : records.map (·.cells) ≠ [] → 0 < header.cells.length :=
      fun _ => List.length_pos_iff.mpr positive
    refine ⟨table, _, tabled, holds.updateIndex covered, ?_⟩
    rw [made, List.length_map]

end

/-! ## The round trip -/

theorem writtenRecords_eq (delimiter : UInt8) (frame : Frame) :
    writtenRecords ⟨delimiter, true, false⟩ frame =
      frame.dataColumns.map Column.header :: cellTexts frame.dataColumns frame.rows := by
  simp [writtenRecords, writtenColumns, Frame.dataColumns, cellTexts]

theorem textRecords_writeText {frame : Frame} {delimiter : UInt8}
    (separates : Separates delimiter) (data : frame.dataColumns ≠ [])
    (unmarked : ∀ column, frame.dataColumns.head? = some column →
      column.header.toList.head? ≠ some '\uFEFF') :
    ∃ (header : TextRecord) (records : List TextRecord),
      textRecords delimiter (bytesOfText (writeText ⟨delimiter, true, false⟩ frame)) =
        (header :: records).map .ok ∧
      header.cells = frame.dataColumns.map Column.header ∧
      records.map (·.cells) = cellTexts frame.dataColumns frame.rows := by
  have bytes : bytesOfText (writeText ⟨delimiter, true, false⟩ frame) =
      encodeTexts delimiter
        (frame.dataColumns.map Column.header :: cellTexts frame.dataColumns frame.rows) := by
    rw [bytesOfText_writeText separates, ← writtenRecords_eq delimiter]
    rfl
  have nonempty : ∀ row ∈ frame.dataColumns.map Column.header ::
      cellTexts frame.dataColumns frame.rows, row ≠ [] := by
    intro row member
    rcases List.mem_cons.mp member with rfl | member
    · exact mt List.map_eq_nil_iff.mp data
    · obtain ⟨_, _, rfl⟩ := List.mem_map.mp member
      exact mt List.map_eq_nil_iff.mp data
  have plain : (encodeTexts delimiter (frame.dataColumns.map Column.header ::
      cellTexts frame.dataColumns frame.rows)).take 3 ≠ byteOrderMark := by
    obtain ⟨column, columns, first⟩ := List.exists_cons_of_ne_nil data
    rw [first, List.map_cons]
    exact take_encodeTexts_ne separates (unmarked column (by rw [first]; rfl)) _ _
  obtain ⟨found, read, cells⟩ := textRecords_encodeTexts separates nonempty plain
  obtain ⟨header, records, rfl, headers, rest⟩ := List.map_eq_cons_iff.mp cells
  exact ⟨header, records, by rw [bytes, read], headers, rest⟩

/-- What is written of a frame is read as the table of its rendered cells, under the headers of
    its columns, with an index column in front. -/
theorem readText_writeText (frame : Frame) (delimiter : UInt8) (inference : InferenceSettings)
    (separates : Separates delimiter) (data : frame.dataColumns ≠ [])
    (unmarked : ∀ column, frame.dataColumns.head? = some column →
      column.header.toList.head? ≠ some '\uFEFF')
    (sampled : frame.rows ≤ inference.sampleRows.val) :
    ∃ cells table again, Rendered frame.dataColumns frame.rows cells ∧
      Frame.ofTexts cells (frame.dataColumns.map Column.header) inference.doublePrecision =
        .ok table ∧
      table.updateIndex = (.ok (), again) ∧
      readText ⟨delimiter, true, inference⟩ (writeText ⟨delimiter, true, false⟩ frame) =
        .ok again := by
  obtain ⟨header, records, written, headers, cells⟩ := textRecords_writeText separates data unmarked
  have rendered := rendered_cellTexts frame.dataColumns frame.rows
  have even : ∀ record ∈ records, record.cells.length = header.cells.length := by
    intro record member
    have inside : record.cells ∈ cellTexts frame.dataColumns frame.rows := by
      rw [← cells]
      exact List.mem_map_of_mem member
    obtain ⟨_, _, same⟩ := List.mem_map.mp inside
    rw [← same, headers, List.length_map, List.length_map]
  have count : records.length = frame.rows := by
    rw [← rendered.length, ← cells, List.length_map]
  have positive : header.cells ≠ [] := by
    rw [headers]
    exact mt List.map_eq_nil_iff.mp data
  have few : records.length ≤ ReadOptions.sampleSize ⟨delimiter, true, inference⟩ := by
    rw [count]
    exact sampled.trans (Nat.le_max_left ..)
  -- The sample takes in the whole file, so the table is made of all of its records at once.
  obtain ⟨table, again, tabled, numbered, made⟩ := frameOfRecords_sampled rfl positive even few
  refine ⟨_, table, again, rendered, ?_, numbered, ?_⟩
  · rw [← cells, ← headers]
    exact tabled
  · rw [readText, readBytes, written]
    exact made

/-- Two rows are named, but the data column has only one, whose text and whose header hold
    delimiters, quotes and line ends. -/
def raggedFrame : Frame :=
  ⟨[.index (.sequential "index" 2), .categorical (.ofTexts "a;b" ["\"x\"\r\n;"])]⟩

theorem readText_writeText_raggedFrame :
    ∃ cells table again, Rendered raggedFrame.dataColumns raggedFrame.rows cells ∧
      Frame.ofTexts cells (raggedFrame.dataColumns.map Column.header) false = .ok table ∧
      table.updateIndex = (.ok (), again) ∧
      readText ⟨0x3B, true, .default⟩ (writeText ⟨0x3B, true, false⟩ raggedFrame) = .ok again :=
  readText_writeText raggedFrame 0x3B .default ⟨by decide, by decide, by decide⟩
    (by simp [raggedFrame, Frame.dataColumns])
    (by decide +kernel) (by decide +kernel)

end Csv

end LinkedTables
