import LinkedTables.Proofs.IndexUpdate
import LinkedTables.Proofs.RecordLines

/-! # What the reader makes of a file

Either some record is at fault and the reader reports the first such record, or all records become
rows of a table, in their order, and the table gets an index column in front.  Where the sample
ends makes no difference to either, but for the kinds. -/

namespace LinkedTables

theorem Frame.HoldsRows.updateIndex {headers : List String} {kinds : Nat → Option Kind}
    {width : Nat} {rows : List (List String)} {frame : Frame}
    (holds : HoldsRows headers kinds width rows frame) (covered : rows ≠ [] → 0 < width) :
    frame.updateIndex =
      (.ok (), ⟨.index (.sequential indexHeader rows.length) :: frame.columns⟩) := by
  have count : frame.rows = rows.length := by
    apply longest_eq fun column member => holds.size_eq member
    intro bare
    by_contra counted
    have columns := holds.columns_ne_nil (covered fun none => counted (by rw [none]; rfl))
    exact columns bare
  rw [updateIndex_of_no_index fun column member => holds.isIndex_eq member, count]

namespace Csv

variable {options : ReadOptions} {file : List (Except Fault TextRecord)} {error : Error}

/-- All records of a file are equally wide, and those behind the header are the rows of a table. -/
structure Tabulates (options : ReadOptions) (file : List (Except Fault TextRecord))
    (records : List TextRecord) (table : Frame) : Prop where
  readable : file = records.map .ok
  even : ∀ record ∈ records, record.cells.length = widthOf file
  holds : Frame.HoldsRows (options.headersOf file) (options.kindOf file) (widthOf file)
    ((records.drop options.headerSize).map (·.cells)) table

/-- In a file that becomes a table no record is at fault. -/
theorem Tabulates.not_offence {records : List TextRecord} {table : Frame}
    (tabulates : Tabulates options file records table) (place : Nat) :
    ¬ Offence options file place error := by
  rintro ⟨entry, there, offends⟩
  rw [tabulates.readable, List.getElem?_map, Option.map_eq_some_iff] at there
  obtain ⟨record, there, rfl⟩ := there
  refine not_offends (tabulates.even record (List.mem_of_getElem? there)) (fun behind => ?_) offends
  have inside : (records.drop options.headerSize)[place - options.headerSize]? = some record := by
    rw [List.getElem?_drop, Nat.add_sub_cancel' (by omega)]
    exact there
  exact tabulates.holds.acceptsRow
    (List.mem_map.mpr ⟨record, List.mem_of_getElem? inside, rfl⟩)

/-- What is wrong with a record is never put down to the table. -/
theorem Offends.not_table {headers : List String} {kinds : Nat → Option Kind} {width : Nat}
    {settled : Prop} {entry : Except Fault TextRecord} (cause : TableError)
    (offends : Offends headers kinds width settled entry error) : error ≠ .table cause := by
  cases offends <;> exact nofun

theorem width_pos {records : List TextRecord} {rest : List (Except Fault TextRecord)}
    (nonempty : ∀ record, .ok record ∈ file → record.cells ≠ [])
    (split : file = records.map .ok ++ rest) (found : records ≠ []) : 0 < widthOf file := by
  cases records with
  | nil => contradiction
  | cons record records =>
    have cells := nonempty record (by simp [split])
    rw [split]
    exact List.length_pos_iff.mpr cells

theorem kindOf_eq {sample : List TextRecord} {rest : List (Except Fault TextRecord)}
    (split : file.drop options.headerSize = sample.map .ok ++ rest)
    (few : sample.length ≤ options.sampleSize)
    (enough : rest = [] ∨ sample.length = options.sampleSize) :
    options.kindOf file = kindAt options.inference.doublePrecision (sample.map (·.cells)) := by
  have taken : (sample.map Except.ok ++ rest).take options.sampleSize = sample.map .ok := by
    rcases enough with rfl | full
    · rw [List.append_nil, List.take_of_length_le (by simpa using few)]
    · exact List.take_left' (by simpa using full)
  funext position
  rw [ReadOptions.kindOf, split, taken, cellsOf_map_ok]

theorem ofTexts_sample {sample : List TextRecord} {rest : List (Except Fault TextRecord)}
    (nonempty : ∀ record, .ok record ∈ file → record.cells ≠ [])
    (behind : file.drop options.headerSize = sample.map .ok ++ rest)
    (few : sample.length ≤ options.sampleSize)
    (enough : rest = [] ∨ sample.length = options.sampleSize)
    (even : ∀ record ∈ sample, record.cells.length = widthOf file) :
    ∃ start, Frame.ofTexts (sample.map (·.cells)) (options.headersOf file)
        options.inference.doublePrecision = .ok start ∧
      Frame.HoldsRows (options.headersOf file) (options.kindOf file) (widthOf file)
        (sample.map (·.cells)) start := by
  have width := inferredWidth_sample nonempty behind enough even
  rw [kindOf_eq behind few enough]
  conv => enter [1, start, 2, 3]; rw [← width]
  apply Frame.ofTexts_holds
  intro row member
  obtain ⟨record, inside, rfl⟩ := List.mem_map.mp member
  rw [width, even record inside]

/-- The rows behind the sample: either one of them is at fault, or the table holds them all. -/
theorem appendRecords_sampled {passed : List TextRecord} {rest : List (Except Fault TextRecord)}
    {frame : Frame} (split : file = passed.map .ok ++ rest)
    (even : ∀ record ∈ passed, record.cells.length = widthOf file)
    (few : passed.length ≤ options.headerSize + options.sampleSize)
    (full : rest ≠ [] → passed.length = options.headerSize + options.sampleSize)
    (holds : Frame.HoldsRows (options.headersOf file) (options.kindOf file) (widthOf file)
      ((passed.drop options.headerSize).map (·.cells)) frame)
    (positive : rest ≠ [] → 0 < widthOf file) :
    (∃ error, FirstOffence options file error ∧ appendRecords frame rest = .error error) ∨
      ∃ records table, Tabulates options file records table ∧
        appendRecords frame rest = .ok table := by
  obtain ⟨appended, sound, walk⟩ := appendRecords_cases rest holds positive
  have evenAll : ∀ record ∈ passed ++ appended, record.cells.length = widthOf file :=
    List.forall_mem_append.mpr ⟨even, fun record member => (sound record member).1⟩
  rcases walk with ⟨table, done, held, grown⟩ | ⟨entry, others, error, stopped, offends, refused⟩
  · refine .inr ⟨passed ++ appended, table, ⟨by simp [split, done], evenAll, ?_⟩, grown⟩
    have behind : appended.drop (options.headerSize - passed.length) = appended := by
      by_cases ended : rest = []
      case pos => simp_all
      case neg =>
        have length := full ended
        rw [Nat.sub_eq_zero_of_le (by omega), List.drop_zero]
    rwa [List.drop_append, behind, List.map_append]
  · refine .inl ⟨error, ?_, refused⟩
    have length := full (by simp [stopped])
    have settled : options.headerSize + options.sampleSize ≤ passed.length + appended.length := by
      omega
    rw [stopped] at split
    apply firstOffence_behind split few evenAll fun record member => (sound record member).2
    rwa [eq_true settled]

theorem readable_of_header {header : List TextRecord}
    (split : file = header.map .ok ++ file.drop options.headerSize)
    (full : file ≠ [] → header.length = options.headerSize) (given : options.hasHeader = true)
    (fault : Fault) (rest : List (Except Fault TextRecord)) : file ≠ .error fault :: rest := by
  rintro rfl
  have length := full (by simp)
  simp only [ReadOptions.headerSize, given] at length
  obtain ⟨record, rfl⟩ := List.length_eq_one_iff.mp length
  simp at split

theorem passed_of_split {header sample : List TextRecord} {rest : List (Except Fault TextRecord)}
    (split : file = header.map .ok ++ file.drop options.headerSize)
    (behind : file.drop options.headerSize = sample.map .ok ++ rest)
    (full : file ≠ [] → header.length = options.headerSize)
    (enough : rest = [] ∨ sample.length = options.sampleSize) :
    file = (header ++ sample).map .ok ++ rest ∧
      (header ++ sample).drop options.headerSize = sample ∧
      (rest ≠ [] → (header ++ sample).length = options.headerSize + options.sampleSize) := by
  have whole : file = (header ++ sample).map .ok ++ rest := by
    rw [List.map_append, List.append_assoc, ← behind, ← split]
  refine ⟨whole, ?_, fun more => ?_⟩
  · by_cases empty : file = []
    case pos =>
      have bare : header ++ sample = [] :=
        List.map_eq_nil_iff.mp (List.append_eq_nil_iff.mp (whole.symm.trans empty)).1
      obtain ⟨rfl, rfl⟩ := List.append_eq_nil_iff.mp bare
      exact List.drop_nil
    case neg => exact List.drop_left' (full empty)
  · have first := full (by rw [whole]; exact List.append_ne_nil_of_right_ne_nil _ more)
    rw [List.length_append, first, enough.resolve_left more]

theorem frameOfRecords_eq {headers : List String} {entries : List (Except Fault TextRecord)}
    (taken : (if options.hasHeader then takeHeader file else .ok ([], file)) =
      .ok (headers, entries)) :
    frameOfRecords options file =
      (takeSample (headerWidth headers) options.sampleSize entries).bind fun (sample, rest) =>
        match Frame.ofTexts sample headers options.inference.doublePrecision with
        | .error cause => .error (.table cause)
        | .ok start => (appendRecords start rest).bind fun table =>
          match table.updateIndex with
          | (.ok (), frame) => .ok frame
          | (.error cause, _) => .error (.table cause) := by
  cases given : options.hasHeader with
  | true =>
    simp only [given, if_true] at taken
    simp only [frameOfRecords, given, if_true, taken]
    rfl
  | false =>
    simp only [given] at taken
    cases taken
    simp only [frameOfRecords, given]
    rfl

/-- Either some record is at fault, and the reader reports the first, or all of them are rows. -/
theorem frameOfRecords_cases (options : ReadOptions) (file : List (Except Fault TextRecord))
    (nonempty : ∀ record, .ok record ∈ file → record.cells ≠ []) :
    (∃ error, FirstOffence options file error ∧ frameOfRecords options file = .error error) ∨
      ∃ records table, Tabulates options file records table ∧
        frameOfRecords options file =
          .ok ⟨.index (.sequential Frame.indexHeader (records.drop options.headerSize).length) ::
            table.columns⟩ := by
  rcases takeHeader_cases options file with ⟨given, fault, rest, rfl⟩ |
    ⟨header, split, short, full, evenHeader, taken⟩
  · refine .inl ⟨.unreadable fault, ?_, by simp [frameOfRecords, given, bind, Except.bind]⟩
    have split : .error fault :: rest = ([] : List TextRecord).map .ok ++
      (([] : List TextRecord).map .ok ++ .error fault :: rest) := rfl
    exact firstOffence_behind split (Nat.zero_le _) (by simp) (by simp) (.unreadable fault)
  have sampled := takeSample_headerWidth nonempty fun given => readable_of_header split full given
  -- The header and the sample are judged by their width alone.
  obtain ⟨sample, evenSample, few, walk⟩ :=
    takeSample_cases (widthOf file) options.sampleSize (file.drop options.headerSize)
  have even : ∀ record ∈ header ++ sample, record.cells.length = widthOf file :=
    List.forall_mem_append.mpr ⟨evenHeader, evenSample⟩
  have short : (header ++ sample).length ≤ options.headerSize + options.sampleSize := by
    rw [List.length_append]
    omega
  rw [frameOfRecords_eq taken, sampled]
  rcases walk with ⟨rest, behind, enough, done⟩ | ⟨entry, rest, error, behind, _, offends, stopped⟩
  case inr =>
    refine .inl ⟨error, ?_, by rw [stopped]; rfl⟩
    have split' : file = (header ++ sample).map .ok ++
        (([] : List TextRecord).map .ok ++ entry :: rest) := by
      rw [split, behind, List.map_append, List.append_assoc]
      rfl
    exact firstOffence_behind split' short (by rwa [List.append_nil]) (by simp) (offends _ _ _)
  -- From here on the kinds are settled, and the frame is what carries them.
  obtain ⟨start, made, holds⟩ := ofTexts_sample nonempty behind few enough evenSample
  rw [done]
  simp only [Except.bind, made]
  obtain ⟨whole, data, stretch⟩ := passed_of_split split behind full enough
  have positive : rest ≠ [] → 0 < widthOf file := by
    intro more
    have least := sampleSize_pos options
    apply width_pos nonempty whole
    apply List.ne_nil_of_length_pos
    rw [stretch more]
    omega
  rcases appendRecords_sampled whole even short stretch (by rwa [data]) positive with
    ⟨error, first, refused⟩ | ⟨records, table, tabulates, grown⟩
  · exact .inl ⟨error, first, by rw [refused]⟩
  · refine .inr ⟨records, table, tabulates, ?_⟩
    have covered : (records.drop options.headerSize).map (·.cells) ≠ [] → 0 < widthOf file := by
      intro found
      have readable : file = records.map .ok ++ [] := by rw [List.append_nil, tabulates.readable]
      apply width_pos nonempty readable
      rintro rfl
      simp at found
    simp only [grown, tabulates.holds.updateIndex covered, List.length_map]

/-! ## Failure -/

/-- The reader fails exactly when some record is at fault, and what it reports is what is wrong
    with the first such record: that it cannot be read, else that its width is not that of the
    file, else the leftmost of its texts that does not fit a kind of the sample.  The table itself
    is never at fault.  The line named is the one that is reached where the record before ends, and
    the record itself stands on this line exactly if no line feed is skipped in between. -/
theorem readBytes_error_iff (options : ReadOptions) (bytes : List UInt8) :
    (∀ error, readBytes options bytes = .error error ↔
      FirstOffence options (textRecords options.delimiter bytes) error) ∧
    ((∃ error, readBytes options bytes = .error error) ↔
      ∃ place error, Offence options (textRecords options.delimiter bytes) place error) ∧
    (∀ cause, readBytes options bytes ≠ .error (.table cause)) ∧
    ∀ place error, Offence options (textRecords options.delimiter bytes) place error →
      ∃ before gap,
        (∀ before' gap', Begins options.delimiter (unmarked bytes) place before' gap' ↔
          before' = before ∧ gap' = gap) ∧
        (∀ byte ∈ gap, isLineEnd byte) ∧
        error.line? = some (lineBehind before) ∧
        (error.line? = some (lineBehind (before ++ gap)) ↔ lineFeed ∉ gap) := by
  rcases frameOfRecords_cases options (textRecords options.delimiter bytes)
    (fun _ member => cells_ne_nil member) with
    ⟨error, first, refused⟩ | ⟨records, table, tabulates, made⟩
  · have failed : readBytes options bytes = .error error := refused
    obtain ⟨place, offence, _⟩ := id first
    refine ⟨fun other => ⟨fun reported => ?_, fun first' => ?_⟩,
      ⟨fun _ => ⟨place, error, offence⟩, fun _ => ⟨error, failed⟩⟩, fun cause reported => ?_,
      fun _ _ offence => offence.names_line⟩
    · rw [failed, Except.error.injEq] at reported
      rwa [← reported]
    · rw [failed, first.unique first']
    · rw [failed, Except.error.injEq] at reported
      obtain ⟨entry, _, offends⟩ := offence
      exact offends.not_table cause reported
  · have accepted : ∀ other, readBytes options bytes ≠ .error other := by
      intro other reported
      have failed : frameOfRecords options _ = .error other := reported
      rw [made] at failed
      contradiction
    refine ⟨fun other => ⟨fun reported => absurd reported (accepted other), ?_⟩, ⟨?_, ?_⟩,
      fun cause => accepted _, fun _ _ offence => offence.names_line⟩
    · rintro ⟨place, offence, _⟩
      exact absurd offence (tabulates.not_offence place)
    · rintro ⟨other, reported⟩
      exact absurd reported (accepted other)
    · rintro ⟨place, other, offence⟩
      exact absurd offence (tabulates.not_offence place)

/-- A text that is no integer, in the third record of lines that end in two bytes. -/
theorem offence_two_byte_ends :
    Offence (ReadOptions.default.withSampleRows ⟨1, by decide⟩)
      (textRecords 0x2C (bytesOfText "n\r\n1\r\nx\r\n")) 2
      (.record 2 (.notConvertible "n" "x" "INT32")) := by
  have third : (textRecords 0x2C (bytesOfText "n\r\n1\r\nx\r\n"))[2]? = some (.ok ⟨2, ["x"]⟩) := by
    decide +kernel
  have typed : ReadOptions.kindOf (ReadOptions.default.withSampleRows ⟨1, by decide⟩)
      (textRecords 0x2C (bytesOfText "n\r\n1\r\nx\r\n")) 0 = some (.signed .w32) := by
    decide +kernel
  have unreadable : (Kind.signed .w32).read "x" = none := by decide +kernel
  have width : widthOf (textRecords 0x2C (bytesOfText "n\r\n1\r\nx\r\n")) = 1 := by decide +kernel
  have header : ReadOptions.headersOf (ReadOptions.default.withSampleRows ⟨1, by decide⟩)
      (textRecords 0x2C (bytesOfText "n\r\n1\r\nx\r\n")) = ["n"] := by
    decide +kernel
  have behind : ReadOptions.headerSize (ReadOptions.default.withSampleRows ⟨1, by decide⟩) +
      ReadOptions.sampleSize (ReadOptions.default.withSampleRows ⟨1, by decide⟩) ≤ 2 := by
    decide
  refine ⟨_, third, ?_⟩
  rw [width, header]
  exact @Offends.cell ["n"] _ 1 _ ⟨2, ["x"]⟩ 0 "x" _ rfl behind rfl typed unreadable (by simp)

/-- The line feed of the second line is skipped, and the third record is behind it. -/
theorem begins_two_byte_ends :
    Begins 0x2C (unmarked (bytesOfText "n\r\n1\r\nx\r\n")) 2
      (bytesOfText "n\r\n1" ++ [carriageReturn]) [lineFeed] := by
  refine ⟨follows_concat ?_ ?_ ?_, 0x78, [carriageReturn, lineFeed], ?_, ?_⟩ <;> decide +kernel

theorem readBytes_error_iff_two_byte_ends :
    Offence (ReadOptions.default.withSampleRows ⟨1, by decide⟩)
      (textRecords 0x2C (bytesOfText "n\r\n1\r\nx\r\n")) 2
      (.record 2 (.notConvertible "n" "x" "INT32")) ∧
    ∃ before gap,
      (∀ before' gap', Begins 0x2C (unmarked (bytesOfText "n\r\n1\r\nx\r\n")) 2 before' gap' ↔
        before' = before ∧ gap' = gap) ∧
      (∀ byte ∈ gap, isLineEnd byte) ∧
      some 2 = some (lineBehind before) ∧
      (some 2 = some (lineBehind (before ++ gap)) ↔ lineFeed ∉ gap) :=
  ⟨offence_two_byte_ends, (readBytes_error_iff _ _).2.2.2 2 _ offence_two_byte_ends⟩

/-- The record at fault stands on the third line, and the second is reported. -/
theorem line_before_record :
    readBytes (ReadOptions.default.withSampleRows ⟨1, by decide⟩)
        (bytesOfText "n\r\n1\r\nx\r\n") =
      .error (.record 2 (.notConvertible "n" "x" "INT32")) ∧
    Offence (ReadOptions.default.withSampleRows ⟨1, by decide⟩)
      (textRecords 0x2C (bytesOfText "n\r\n1\r\nx\r\n")) 2
      (.record 2 (.notConvertible "n" "x" "INT32")) ∧
    Begins 0x2C (unmarked (bytesOfText "n\r\n1\r\nx\r\n")) 2
      (bytesOfText "n\r\n1" ++ [carriageReturn]) [lineFeed] ∧
    lineBehind (bytesOfText "n\r\n1" ++ [carriageReturn] ++ [lineFeed]) = 3 := by
  refine ⟨?_, offence_two_byte_ends, begins_two_byte_ends, by decide +kernel⟩
  have reported : (match readBytes (ReadOptions.default.withSampleRows ⟨1, by decide⟩)
      (bytesOfText "n\r\n1\r\nx\r\n") with
      | .ok _ => none
      | .error error => some error) = some (.record 2 (.notConvertible "n" "x" "INT32")) := by
    decide +kernel
  split at reported
  · contradiction
  next error failed => rw [failed, Option.some.inj reported]

/-! ## Success -/

/-- A column of what records hold at a position, each record in its row. -/
structure FieldColumn (header : String) (kind? : Option Kind) (records : List TextRecord)
    (position : Nat) (column : Column) : Prop where
  header_eq : column.header = header
  size_eq : column.size = records.length
  complete : records.map (·.cells[position]?) =
    (textsAt (records.map (·.cells)) position).map some
  holds : column.Holds header kind? (textsAt (records.map (·.cells)) position)
  shows : ∀ (row : Nat) (record : TextRecord) (text : String), records[row]? = some record →
    record.cells[position]? = some text →
    (kind? = none →
      (textsAt (records.map (·.cells)) position).eraseDups.length ≤ Width.count .w32) →
    ∃ value, column.read text = .ok value ∧ column.value true row = .ok value

/-- A frame of the records of a file: an index column that numbers those behind the header, and a
    column for each field. -/
structure Lists (options : ReadOptions) (file : List (Except Fault TextRecord))
    (records : List TextRecord) (index : IndexColumn) (data : List Column) : Prop where
  readable : file = records.map .ok
  even : ∀ record ∈ records, record.cells.length = widthOf file
  numbers : index.ids.toList.map (·.val) =
    List.range (min (records.drop options.headerSize).length (Width.count .w64))
  width : data.length = widthOf file
  fields : ∀ (position : Nat) (column : Column), data[position]? = some column →
    FieldColumn (headerAt (options.headersOf file) position) (options.kindOf file position)
      (records.drop options.headerSize) position column

theorem Tabulates.lists {records : List TextRecord} {table : Frame}
    (tabulates : Tabulates options file records table) :
    Lists options file records
      (.sequential Frame.indexHeader (records.drop options.headerSize).length) table.columns := by
  refine ⟨tabulates.readable, tabulates.even, IndexColumn.sequential_values _ _,
    tabulates.holds.length, fun position column there => ?_⟩
  have bound := (List.getElem?_eq_some_iff.mp there).1
  rw [tabulates.holds.length] at bound
  have held := tabulates.holds.holds position column there
  have complete := map_getElem?_textsAt tabulates.holds.rectangular bound
  rw [List.map_map] at complete
  refine ⟨held.header_eq, ?_, complete, held, fun row record text atRow atPosition => ?_⟩
  · rw [tabulates.holds.size_eq (List.mem_of_getElem? there), List.length_map]
  · have cell := congrArg (·[row]?) complete
    simp only [List.getElem?_map, atRow, Option.map_some, Function.comp_apply, atPosition] at cell
    exact held.value_eq (by simpa using cell.symm)

/-- Every record that is not the header is a row, in the order of the file, with each of its
    fields in its own column, wherever the sample ends. -/
theorem readBytes_lists (options : ReadOptions) (bytes : List UInt8) (frame : Frame)
    (read : readBytes options bytes = .ok frame) :
    ∃ records index data, frame.columns = .index index :: data ∧
      Lists options (textRecords options.delimiter bytes) records index data := by
  rcases frameOfRecords_cases options (textRecords options.delimiter bytes)
    (fun _ member => cells_ne_nil member) with
    ⟨error, _, refused⟩ | ⟨records, table, tabulates, made⟩
  · have failed : readBytes options bytes = .error error := refused
    rw [read] at failed
    contradiction
  · have result : readBytes options bytes = _ := made
    rw [read, Except.ok.injEq] at result
    exact ⟨records, _, table.columns, by rw [result], tabulates.lists⟩

/-- The records behind the first are past the sample. -/
theorem readBytes_lists_past_sample :
    ∃ frame, readBytes (ReadOptions.default.withSampleRows ⟨1, by decide⟩)
        (bytesOfText "n,t\n1,b\n2,a\n3,b\n") = .ok frame ∧
      ∃ records index data, frame.columns = .index index :: data ∧
        Lists (ReadOptions.default.withSampleRows ⟨1, by decide⟩)
          (textRecords 0x2C (bytesOfText "n,t\n1,b\n2,a\n3,b\n")) records index data := by
  cases read : readBytes (ReadOptions.default.withSampleRows ⟨1, by decide⟩)
      (bytesOfText "n,t\n1,b\n2,a\n3,b\n") with
  | ok frame => exact ⟨frame, rfl, readBytes_lists _ _ frame read⟩
  | error error =>
    have accepted : (readBytes (ReadOptions.default.withSampleRows ⟨1, by decide⟩)
      (bytesOfText "n,t\n1,b\n2,a\n3,b\n")).isOk = true := by decide +kernel
    rw [read] at accepted
    contradiction

end Csv

end LinkedTables
