import LinkedTables.Proofs.CsvRendering
import LinkedTables.Proofs.ShownCells

/-! # Reading again what was read

A table that was read is written and read again with the same options.  The rows come back as they
were, so the only thing that can change is the guess: a real column whose sample is written as
whole numbers, or shows no finite number, is guessed to be something else. -/

namespace LinkedTables

/-! ## Rows that are written -/

theorem textsAt_take {rows : List (List String)} {width position : Nat} (count : Nat)
    (rectangular : ∀ row ∈ rows, row.length = width) (bound : position < width) :
    textsAt (rows.take count) position = (textsAt rows position).take count := by
  have some_injective : Function.Injective (List.map (some : String → Option String)) :=
    List.map_injective_iff.mpr fun _ _ => Option.some.inj
  apply some_injective
  rw [← map_getElem?_textsAt (fun row member => rectangular row (List.mem_of_mem_take member)) bound,
    List.map_take, map_getElem?_textsAt rectangular bound, List.map_take]

namespace Column.Holds

variable {header : String} {kind? : Option Kind} {texts : List String} {column : Column}

theorem format_eq (holds : column.Holds header kind? texts) :
    column.format = kind?.elim "categorical" Kind.name := by
  cases holds <;> rfl

theorem contents?_floating_iff (holds : column.Holds header kind? texts) {p : Precision}
    {cells : Array (Floating p)} :
    column.contents? (.floating p) = some cells ↔
      kind? = some (.floating p) ∧ texts.map (Kind.floating p).read = cells.toList.map some := by
  cases holds with
  | @plain kind _ contents read =>
    by_cases same : kind = .floating p
    case pos =>
      subst same
      have here : contents? (.floating p) (.plain ⟨header, ⟨.floating p, contents.toArray⟩, none, none⟩) =
          some contents.toArray := by
        simp [contents?]
      rw [here, read, Option.some.injEq]
      constructor
      · rintro rfl
        exact ⟨rfl, rfl⟩
      · rintro ⟨_, equal⟩
        have lists : contents = cells.toList :=
          List.map_injective_iff.mpr (fun _ _ => Option.some.inj) equal
        rw [lists, Array.toArray_toList]
    case neg => simp [contents?, same]
  | categorical => simp [contents?]

end Column.Holds

theorem Kind.find?_name (kind : Kind) : Kind.all.find? (·.name == kind.name) = some kind := by
  cases kind with
  | boolean => rfl
  | signed width | unsigned width => cases width <;> rfl
  | floating p => cases p <;> rfl
  | vector dimension p => cases dimension <;> cases p <;> rfl

theorem Kind.name_ne_categorical (kind : Kind) : kind.name ≠ "categorical" := by
  have unknown : Kind.all.find? (·.name == "categorical") = none := by decide
  intro same
  have found := kind.find?_name
  rw [same, unknown] at found
  contradiction

theorem format_injective {kind? other : Option Kind}
    (same : kind?.elim "categorical" Kind.name = other.elim "categorical" Kind.name) :
    kind? = other := by
  cases kind? with
  | none =>
    cases other with
    | none => rfl
    | some kind => exact absurd same.symm kind.name_ne_categorical
  | some kind =>
    cases other with
    | none => exact absurd same kind.name_ne_categorical
    | some other =>
      have found := kind.find?_name
      simp only [Option.elim_some] at same
      rw [same, other.find?_name] at found
      exact found.symm

namespace Frame.HoldsRows

variable {headers : List String} {kinds : Nat → Option Kind} {width : Nat}
  {rows : List (List String)} {table : Frame}

/-- Columns of a table that a reader made are all data, whatever index it put in front. -/
theorem dataColumns_eq (holds : HoldsRows headers kinds width rows table) (index : IndexColumn) :
    dataColumns ⟨.index index :: table.columns⟩ = table.columns := by
  have whole : table.columns.filter (!·.isIndex) = table.columns :=
    List.filter_eq_self.mpr fun column member => by simp [holds.isIndex_eq member]
  exact whole

theorem rows_eq (holds : HoldsRows headers kinds width rows table) (nonempty : table.columns ≠ [])
    (header : String) :
    Frame.rows ⟨.index (.sequential header rows.length) :: table.columns⟩ = rows.length := by
  have short : (IndexColumn.sequential header rows.length).size ≤ rows.length := by
    have values := congrArg List.length (IndexColumn.sequential_values header rows.length)
    rw [List.length_map, List.length_range, Array.length_toList] at values
    simp only [IndexColumn.size, values]
    exact Nat.min_le_left ..
  have below : Nat.max 0 (IndexColumn.sequential header rows.length).size ≤ rows.length := by
    exact Nat.max_le.mpr ⟨Nat.zero_le _, short⟩
  rw [Frame.rows, longest, List.foldl_cons]
  show table.columns.foldl _ (Nat.max 0 (IndexColumn.sequential header rows.length).size) = _
  rw [foldl_size (fun column member => holds.size_eq member) below, if_neg nonempty]

theorem textsAt_cellTexts (holds : HoldsRows headers kinds width rows table) {position : Nat}
    (bound : position < width)
    (coded : kinds position = none →
      (textsAt rows position).eraseDups.length ≤ Width.count .w32) :
    textsAt (Csv.cellTexts table.columns rows.length) position =
      (textsAt rows position).map (rewritten (kinds position)) := by
  have inside : position < table.columns.length := by rw [holds.length]; exact bound
  have there := List.getElem?_eq_getElem inside
  have held := holds.holds position _ there
  have count := length_textsAt holds.rectangular bound
  have shown : textsAt (Csv.cellTexts table.columns rows.length) position =
      (List.range rows.length).map (Csv.cellText · table.columns[position]) := by
    rw [textsAt, Csv.cellTexts, List.filterMap_map]
    simp only [Function.comp_def, List.getElem?_map, there, Option.map_some]
    exact congrFun List.filterMap_eq_map _
  rw [shown]
  refine List.ext_getElem (by simp [count]) fun row before behind => ?_
  rw [List.getElem_map, List.getElem_map, List.getElem_range]
  exact held.cellText_eq (List.getElem?_eq_getElem _) coded

theorem rewritten (holds : HoldsRows headers kinds width rows table)
    (scalar : ∀ position < width, ∀ kind, kinds position = some kind → kind.Scalar)
    (coded : ∀ position < width, kinds position = none →
      (textsAt rows position).eraseDups.length ≤ Width.count .w32) :
    HoldsRows headers kinds width (Csv.cellTexts table.columns rows.length) table := by
  refine ⟨holds.length, fun row member => ?_, fun position column there => ?_⟩
  · obtain ⟨_, _, rfl⟩ := List.mem_map.mp member
    rw [List.length_map, holds.length]
  · have bound := (List.getElem?_eq_some_iff.mp there).1
    rw [holds.length] at bound
    rw [holds.textsAt_cellTexts bound (coded position bound)]
    exact (holds.holds position column there).rewritten (scalar position bound)

end Frame.HoldsRows

namespace Csv

/-! ## The second reading -/

section

variable {options : ReadOptions} {header : TextRecord} {records : List TextRecord}
  {kinds : Nat → Option Kind} {table : Frame}

/-- The rows of a table are read as this table if the same kinds are guessed, and are read as a
    table of the same formats only then. -/
theorem frameOfRecords_of_holds (given : options.hasHeader = true) (nonempty : header.cells ≠ [])
    (holds : Frame.HoldsRows header.cells kinds header.cells.length (records.map (·.cells)) table) :
    ((∀ position < header.cells.length,
        options.kindOf ((header :: records).map .ok) position = kinds position) →
      frameOfRecords options ((header :: records).map .ok) =
        .ok ⟨.index (.sequential Frame.indexHeader records.length) :: table.columns⟩) ∧
    ∀ again, frameOfRecords options ((header :: records).map .ok) = .ok again →
      again.columns.tail.map Column.format = table.columns.map Column.format →
      ∀ position < header.cells.length,
        options.kindOf ((header :: records).map .ok) position = kinds position := by
  have even : ∀ record ∈ records, record.cells.length = header.cells.length :=
    fun record member => holds.rectangular _ (List.mem_map_of_mem member)
  rcases frameOfRecords_even_cases given nonempty even with
    ⟨⟨place, record, _, there, unfit⟩, error, refused⟩ | ⟨table', holds', made⟩
  · rw [refused]
    refine ⟨fun same => absurd (fun position text atPosition => ?_) unfit, nofun⟩
    -- The table itself shows that every row is accepted under its kinds.
    have member := List.mem_of_getElem? there
    have bound := (List.getElem?_eq_some_iff.mp atPosition).1
    rw [even record member] at bound
    rw [same position bound]
    exact holds.acceptsRow (List.mem_map_of_mem member) position text atPosition
  · rw [made]
    refine ⟨fun same => ?_, fun again read formats position bound => ?_⟩
    · rw [(holds'.congr_kinds same).unique holds]
    · cases read
      have inside : position < table.columns.length := by rw [holds.length]; exact bound
      have inside' : position < table'.columns.length := by rw [holds'.length]; exact bound
      have shown := congrArg (·[position]?) formats
      simp only [List.tail_cons, List.getElem?_map, List.getElem?_eq_getElem inside,
        List.getElem?_eq_getElem inside', Option.map_some, Option.some.injEq] at shown
      rw [(holds.holds position _ (List.getElem?_eq_getElem inside)).format_eq,
        (holds'.holds position _ (List.getElem?_eq_getElem inside')).format_eq] at shown
      exact format_injective shown

end

/-- What is known of a table that was read: the rows that it was made of, and the kinds that were
    guessed from the first of them. -/
structure ReadAs (options : ReadOptions) (headers : List String) (rows : List (List String))
    (frame table : Frame) : Prop where
  frame_eq : frame = ⟨.index (.sequential Frame.indexHeader rows.length) :: table.columns⟩
  holds : Frame.HoldsRows headers
    (kindAt options.inference.doublePrecision (rows.take options.sampleSize)) headers.length rows
    table

theorem exists_readAs {options : ReadOptions} {text : String} {frame : Frame}
    (given : options.hasHeader = true) (read : readText options text = .ok frame)
    (data : frame.dataColumns ≠ []) :
    ∃ headers rows table, ReadAs options headers rows frame table := by
  rcases frameOfRecords_cases options (textRecords options.delimiter (bytesOfText text))
    (fun _ member => cells_ne_nil member) with
    ⟨error, _, refused⟩ | ⟨records, table, tabulates, made⟩
  · have failed : readText options text = .error error := refused
    rw [read] at failed
    contradiction
  · have result : readText options text = _ := made
    rw [read, Except.ok.injEq] at result
    have columns : table.columns ≠ [] := by
      rw [← tabulates.holds.dataColumns_eq, ← result]
      exact data
    cases records with
    | nil =>
      have bare := tabulates.holds.length
      rw [tabulates.readable] at bare
      exact absurd (List.length_eq_zero_iff.mp bare) columns
    | cons header records =>
      have headers : options.headersOf ((header :: records).map .ok) = header.cells :=
        ReadOptions.headersOf_of_header given
      have holds := tabulates.holds
      rw [ReadOptions.headerSize_of_header given, List.drop_succ_cons, List.drop_zero]
        at result holds
      rw [tabulates.readable, headers, kindOf_records given] at holds
      exact ⟨header.cells, records.map (·.cells), table, by rw [result, List.length_map], holds⟩

namespace ReadAs

variable {options : ReadOptions} {headers : List String} {rows : List (List String)}
  {frame table : Frame}

theorem dataColumns_eq (readAs : ReadAs options headers rows frame table) :
    frame.dataColumns = table.columns := by
  rw [readAs.frame_eq, readAs.holds.dataColumns_eq]

theorem coded (readAs : ReadAs options headers rows frame table)
    (coded : ∀ column, .categorical column ∈ frame.columns →
      column.categories.size ≤ Width.count .w32) {position : Nat} (bound : position < headers.length)
    (categorical : kindAt options.inference.doublePrecision (rows.take options.sampleSize)
      position = none) :
    (textsAt rows position).eraseDups.length ≤ Width.count .w32 := by
  have inside : position < table.columns.length := by rw [readAs.holds.length]; exact bound
  have held := readAs.holds.holds position _ (List.getElem?_eq_getElem inside)
  have member : table.columns[position] ∈ frame.columns := by
    rw [readAs.frame_eq]
    exact List.mem_cons_of_mem _ (List.getElem_mem inside)
  rw [categorical] at held
  generalize table.columns[position] = column at held member
  cases held with
  | categorical => simpa using coded _ member

/-- The same kinds are guessed from the rows that are written just if the real columns look real. -/
theorem kinds_eq_iff (readAs : ReadAs options headers rows frame table)
    (coded : ∀ column, .categorical column ∈ frame.columns →
      column.categories.size ≤ Width.count .w32) :
    (∀ position < headers.length,
        kindAt options.inference.doublePrecision
            ((cellTexts table.columns rows.length).take options.sampleSize) position =
          kindAt options.inference.doublePrecision (rows.take options.sampleSize) position) ↔
      ∀ column ∈ frame.dataColumns, ∀ (p : Precision) (cells : Array (Floating p)),
        column.contents? (.floating p) = some cells →
          LooksReal (cells.toList.take options.sampleSize) := by
  have holds := readAs.holds
  have rewritten := holds.rewritten (fun _ _ _ => scalar_of_guessed) fun _ => readAs.coded coded
  have second : ∀ position < headers.length,
      (kindAt options.inference.doublePrecision
            ((cellTexts table.columns rows.length).take options.sampleSize) position =
          kindAt options.inference.doublePrecision (rows.take options.sampleSize) position ↔
        ∀ (p : Precision) (cells : List (Floating p)),
          kindAt options.inference.doublePrecision (rows.take options.sampleSize) position =
            some (.floating p) →
          ((textsAt rows position).take options.sampleSize).map (Kind.floating p).read =
            cells.map some → LooksReal cells) := by
    intro position bound
    have texts := textsAt_take options.sampleSize holds.rectangular bound
    have texts' := textsAt_take options.sampleSize rewritten.rectangular bound
    rw [holds.textsAt_cellTexts bound (readAs.coded coded bound), ← List.map_take] at texts'
    simp only [kindAt, texts, texts']
    exact inferKind_rewritten_iff rfl
  rw [readAs.dataColumns_eq]
  constructor
  · intro same column member p cells contents
    obtain ⟨position, there⟩ := List.mem_iff_getElem?.mp member
    have bound := (List.getElem?_eq_some_iff.mp there).1
    rw [holds.length] at bound
    obtain ⟨real, read⟩ := (holds.holds position column there).contents?_floating_iff.mp contents
    refine (second position bound).mp (same position bound) p _ real ?_
    rw [List.map_take, read, List.map_take]
  · intro looks position bound
    have inside : position < table.columns.length := by rw [holds.length]; exact bound
    have held := holds.holds position _ (List.getElem?_eq_getElem inside)
    refine (second position bound).mpr fun p cells real read => ?_
    -- The cells in the sample are the first of those that the column holds.
    have reads : ∀ text ∈ textsAt rows position, (Kind.floating p).reads text :=
      fun text member => held.accepts member _ real
    obtain ⟨whole, readWhole⟩ := exists_cells reads
    have first : cells = whole.take options.sampleSize := by
      rw [List.map_take, readWhole, ← List.map_take] at read
      exact (List.map_injective_iff.mpr (fun _ _ => Option.some.inj) read).symm
    rw [first]
    exact looks _ (List.getElem_mem inside) p whole.toArray
      (held.contents?_floating_iff.mpr ⟨real, readWhole⟩)

end ReadAs

/-! ## Both readings -/

/-- A table that was read is written and read again as itself exactly if each of its real columns
    looks real in the rows of the sample: one number there is finite, and one is missing or not
    shown as a 64-bit whole number.  If it is read as a table of other columns, the formats tell. -/
theorem readText_writeText_eq_iff (options : ReadOptions) (text : String) (frame : Frame)
    (given : options.hasHeader = true) (separates : Separates options.delimiter)
    (read : readText options text = .ok frame) (data : frame.dataColumns ≠ [])
    (unmarked : ∀ column, frame.dataColumns.head? = some column →
      column.header.toList.head? ≠ some '\uFEFF')
    (coded : ∀ column, .categorical column ∈ frame.columns →
      column.categories.size ≤ Width.count .w32) :
    (readText options (writeText ⟨options.delimiter, true, false⟩ frame) = .ok frame ↔
      ∀ column ∈ frame.dataColumns, ∀ (p : Precision) (cells : Array (Floating p)),
        column.contents? (.floating p) = some cells →
          LooksReal (cells.toList.take options.sampleSize)) ∧
    ∀ again, readText options (writeText ⟨options.delimiter, true, false⟩ frame) = .ok again →
      again.headers = frame.headers → again = frame := by
  obtain ⟨headers, rows, table, readAs⟩ := exists_readAs given read data
  obtain ⟨header, records, written, headerCells, cells⟩ :=
    textRecords_writeText separates data unmarked
  have columns : table.columns ≠ [] := by rwa [← readAs.dataColumns_eq]
  have count : frame.rows = rows.length := by
    rw [readAs.frame_eq]
    exact readAs.holds.rows_eq columns _
  rw [readAs.dataColumns_eq] at headerCells cells
  rw [count] at cells
  -- What is written has the headers of the table and its rows as they are shown.
  have same : header.cells = headers := by
    rw [headerCells]
    refine List.ext_getElem (by rw [List.length_map, readAs.holds.length]) fun position here there => ?_
    rw [List.length_map] at here
    have held := readAs.holds.holds position _ (List.getElem?_eq_getElem here)
    rw [List.getElem_map, held.header_eq, headerAt, List.getElem?_eq_getElem there, Option.getD_some]
  have rewritten := readAs.holds.rewritten (fun _ _ _ => scalar_of_guessed) fun _ => readAs.coded coded
  rw [← same, ← cells] at rewritten
  have positive : header.cells ≠ [] := by
    rw [headerCells]
    exact mt List.map_eq_nil_iff.mp columns
  obtain ⟨agrees, tells⟩ := frameOfRecords_of_holds given positive rewritten
  have second : readText options (writeText ⟨options.delimiter, true, false⟩ frame) =
      frameOfRecords options ((header :: records).map .ok) := by
    rw [readText, readBytes, written]
  have length : records.length = rows.length := by
    have lengths := congrArg List.length cells
    rwa [List.length_map, (rendered_cellTexts _ _).length] at lengths
  -- So whether the same table is made of it depends on the guessed kinds alone.
  have kinds := readAs.kinds_eq_iff coded
  rw [← cells, ← kindOf_records given header records, ← same] at kinds
  rw [length, ← readAs.frame_eq, ← second] at agrees
  rw [← second] at tells
  refine ⟨⟨fun again => kinds.mp (tells frame again ?_), fun looks => agrees (kinds.mpr looks)⟩,
    fun again reading formats => ?_⟩
  · rw [readAs.frame_eq, List.tail_cons]
  · -- Both tables have an index column in front, so the formats of the others agree.
    have shown := congrArg (List.map Prod.snd) formats
    simp only [Frame.headers, List.map_map] at shown
    have tails := congrArg List.tail shown
    rw [← List.map_tail, ← List.map_tail, readAs.frame_eq, List.tail_cons] at tails
    rw [agrees (tells again reading tails), Except.ok.injEq] at reading
    exact reading.symm

/-- The gap and the fraction make the first column look real. -/
theorem readText_writeText_eq_iff_gap :
    ∃ frame, readText .default "x,t\n1.5,a\n,b\n" = .ok frame ∧
      (readText .default (writeText ⟨0x2C, true, false⟩ frame) = .ok frame ↔
        ∀ column ∈ frame.dataColumns, ∀ (p : Precision) (cells : Array (Floating p)),
          column.contents? (.floating p) = some cells →
            LooksReal (cells.toList.take ReadOptions.default.sampleSize)) ∧
      ∀ again, readText .default (writeText ⟨0x2C, true, false⟩ frame) = .ok again →
        again.headers = frame.headers → again = frame := by
  have facts : ∀ frame ∈ (readText .default "x,t\n1.5,a\n,b\n").toOption,
      frame.dataColumns.isEmpty = false ∧
      (∀ column ∈ frame.dataColumns.head?, column.header.toList.head? ≠ some '\uFEFF') ∧
      ∀ column ∈ frame.columns, ∀ categorical ∈ column.categorical?,
        categorical.categories.size ≤ Width.count .w32 := by
    decide +kernel
  have accepted : (readText .default "x,t\n1.5,a\n,b\n").isOk = true := by decide +kernel
  cases read : readText .default "x,t\n1.5,a\n,b\n" with
  | error error =>
    rw [read] at accepted
    contradiction
  | ok frame =>
    obtain ⟨data, unmarked, coded⟩ := facts frame (by rw [read]; rfl)
    exact ⟨frame, rfl, readText_writeText_eq_iff .default _ frame rfl
      ⟨by decide, by decide, by decide⟩ read (by simpa using data) unmarked
      fun column member => coded _ member column rfl⟩

/-- Whole numbers with a fraction of zero are read as real ones, written without the fraction, and
    read again as whole ones. -/
theorem readText_writeText_ne :
    ∃ frame again, readText .default "x\n1.0\n2.0\n" = .ok frame ∧ frame.dataColumns ≠ [] ∧
      readText .default (writeText ⟨0x2C, true, false⟩ frame) = .ok again ∧
      frame.headers = [("index", "UINT64"), ("x", "FLOAT32")] ∧
      again.headers = [("index", "UINT64"), ("x", "INT32")] := by
  have facts : ∀ frame ∈ (readText .default "x\n1.0\n2.0\n").toOption,
      frame.dataColumns.isEmpty = false ∧
      frame.headers = [("index", "UINT64"), ("x", "FLOAT32")] ∧
      (readText .default (writeText ⟨0x2C, true, false⟩ frame)).toOption.map Frame.headers =
        some [("index", "UINT64"), ("x", "INT32")] := by
    decide +kernel
  have accepted : (readText .default "x\n1.0\n2.0\n").isOk = true := by decide +kernel
  cases read : readText .default "x\n1.0\n2.0\n" with
  | error error =>
    rw [read] at accepted
    contradiction
  | ok frame =>
    obtain ⟨data, first, second⟩ := facts frame (by rw [read]; rfl)
    cases reread : readText .default (writeText ⟨0x2C, true, false⟩ frame) with
    | error error =>
      rw [reread] at second
      contradiction
    | ok again =>
      rw [reread] at second
      exact ⟨frame, again, rfl, by simpa using data, reread, first, Option.some.inj second⟩

end Csv

end LinkedTables
