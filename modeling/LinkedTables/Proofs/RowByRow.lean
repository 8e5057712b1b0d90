import LinkedTables.Proofs.ColumnContents
import LinkedTables.Proofs.RowAppend

/-! # Frames made of rows

A frame can be made of rows at once, with kinds guessed from them, or of the first rows and then
row by row.  `Frame.HoldsRows` is the invariant that both ways share: every column holds its part
of the rows under a header and a kind that do not change any more.  It determines the frame. -/

namespace LinkedTables

/-- The header of a column: the one that is given, else a numbered one. -/
def headerAt (headers : List String) (position : Nat) : String :=
  headers[position]?.getD (defaultHeader position)

/-- The kind that rows suggest for a column. -/
def kindAt (doublePrecision : Bool) (rows : List (List String)) (position : Nat) : Option Kind :=
  inferKind (textsAt rows position) doublePrecision

/-! ## Columns of rows -/

theorem textsAt_concat {rows : List (List String)} {row : List String} {position : Nat}
    {text : String} (there : row[position]? = some text) :
    textsAt (rows ++ [row]) position = textsAt rows position ++ [text] := by
  simp [textsAt, there]

theorem map_getElem?_textsAt {rows : List (List String)} {width position : Nat}
    (rectangular : ∀ row ∈ rows, row.length = width) (bound : position < width) :
    rows.map (·[position]?) = (textsAt rows position).map some := by
  induction rows with
  | nil => rfl
  | cons row rows inductionHypothesis =>
    have long : position < row.length := by rw [rectangular row (by simp)]; exact bound
    have rest := inductionHypothesis fun row' member =>
      rectangular row' (List.mem_cons_of_mem _ member)
    simp only [textsAt] at rest ⊢
    rw [List.map_cons, List.filterMap_cons, rest, List.getElem?_eq_getElem long]
    rfl

theorem length_textsAt {rows : List (List String)} {width position : Nat}
    (rectangular : ∀ row ∈ rows, row.length = width) (bound : position < width) :
    (textsAt rows position).length = rows.length := by
  have cells := congrArg List.length (map_getElem?_textsAt rectangular bound)
  rw [List.length_map, List.length_map] at cells
  exact cells.symm

theorem getElem?_textsAt {rows : List (List String)} {width position place : Nat}
    {row : List String} (rectangular : ∀ row ∈ rows, row.length = width) (bound : position < width)
    (there : rows[place]? = some row) : (textsAt rows position)[place]? = row[position]? := by
  have cells := congrArg (·[place]?) (map_getElem?_textsAt rectangular bound)
  simp only [List.getElem?_map, there, Option.map_some] at cells
  obtain ⟨text, here, same⟩ := Option.map_eq_some_iff.mp cells.symm
  rw [here, same]

namespace Frame

/-- A frame of which every column holds its part of rows. -/
structure HoldsRows (headers : List String) (kinds : Nat → Option Kind) (width : Nat)
    (rows : List (List String)) (frame : Frame) : Prop where
  length : frame.columns.length = width
  rectangular : ∀ row ∈ rows, row.length = width
  holds : ∀ (position : Nat) (column : Column), frame.columns[position]? = some column →
    column.Holds (headerAt headers position) (kinds position) (textsAt rows position)

/-- A row each of whose texts is accepted under the kind of its column. -/
def AcceptsRow (kinds : Nat → Option Kind) (row : List String) : Prop :=
  ∀ (position : Nat) (text : String), row[position]? = some text → Accepts (kinds position) text

namespace HoldsRows

variable {headers : List String} {kinds : Nat → Option Kind} {width : Nat}
  {rows : List (List String)} {row : List String} {frame other : Frame}

theorem unique (holds : HoldsRows headers kinds width rows frame)
    (holds' : HoldsRows headers kinds width rows other) : frame = other := by
  obtain ⟨columns⟩ := frame
  obtain ⟨columns'⟩ := other
  congr 1
  have length : columns.length = columns'.length := holds.length.trans holds'.length.symm
  refine List.ext_getElem length fun position here there => ?_
  exact (holds.holds position _ (List.getElem?_eq_getElem here)).unique
    (holds'.holds position _ (List.getElem?_eq_getElem there))

theorem isIndex_eq (holds : HoldsRows headers kinds width rows frame) {column : Column}
    (member : column ∈ frame.columns) : column.isIndex = false := by
  obtain ⟨position, there⟩ := List.mem_iff_getElem?.mp member
  exact (holds.holds position column there).isIndex_eq

theorem exists_column {position : Nat} {kind? : Option Kind}
    (holds : HoldsRows headers kinds width rows frame) (bound : position < width)
    (kind : kinds position = kind?) :
    ∃ column, frame.columns[position]? = some column ∧
      column.Holds (headerAt headers position) kind? (textsAt rows position) := by
  have there := List.getElem?_eq_getElem (l := frame.columns) (holds.length.symm ▸ bound)
  exact ⟨_, there, kind ▸ holds.holds position _ there⟩

theorem size_eq (holds : HoldsRows headers kinds width rows frame) {column : Column}
    (member : column ∈ frame.columns) : column.size = rows.length := by
  obtain ⟨position, there⟩ := List.mem_iff_getElem?.mp member
  have bound := (List.getElem?_eq_some_iff.mp there).1
  rw [holds.length] at bound
  rw [(holds.holds position column there).size_eq, length_textsAt holds.rectangular bound]

theorem acceptsRow (holds : HoldsRows headers kinds width rows frame) (member : row ∈ rows) :
    AcceptsRow kinds row := by
  intro position text there
  have bound := (List.getElem?_eq_some_iff.mp there).1
  rw [holds.rectangular row member, ← holds.length] at bound
  have held := holds.holds position _ (List.getElem?_eq_getElem bound)
  exact held.accepts (List.mem_filterMap.mpr ⟨row, member, there⟩)

theorem indexPosition?_eq (holds : HoldsRows headers kinds width rows frame) :
    frame.indexPosition? = none :=
  List.findIdx?_eq_none_iff.mpr fun _ member => holds.isIndex_eq member

theorem index?_eq (holds : HoldsRows headers kinds width rows frame) : frame.index? = none := by
  refine List.findSome?_eq_none_iff.mpr fun column member => ?_
  have plain := holds.isIndex_eq member
  cases column with
  | index index => contradiction
  | plain _ | categorical _ => rfl

theorem textWidth_eq (holds : HoldsRows headers kinds width rows frame) :
    frame.textWidth = width := by
  simp [textWidth, Frame.width, holds.indexPosition?_eq, holds.length]

theorem columns_ne_nil (holds : HoldsRows headers kinds width rows frame) (positive : 0 < width) :
    frame.columns ≠ [] := by
  rw [← holds.length] at positive
  exact List.ne_nil_of_length_pos positive

theorem entries_eq (holds : HoldsRows headers kinds width rows frame) :
    frame.entries row = frame.columns.zip (row.map some) := by
  simp only [entries, slots, holds.indexPosition?_eq]

theorem getElem?_entries (holds : HoldsRows headers kinds width rows frame) {position : Nat}
    {column : Column} {text : String} :
    (frame.entries row)[position]? = some (column, some text) ↔
      frame.columns[position]? = some column ∧ row[position]? = some text := by
  rw [holds.entries_eq, List.getElem?_zip_eq_some]
  simp

theorem fits (holds : HoldsRows headers kinds width rows frame) (positive : 0 < width)
    (count : row.length = width) (accepted : AcceptsRow kinds row) : frame.RowFits row where
  columns := holds.columns_ne_nil positive
  count := by rw [holds.textWidth_eq, count]
  readable column text member := by
    obtain ⟨position, there⟩ := List.mem_iff_getElem?.mp member
    obtain ⟨column', text'⟩ := holds.getElem?_entries.mp there
    exact (holds.holds position column column').read_iff.mpr (accepted position text text')
  identity index greatest designated := by
    rw [holds.index?_eq] at designated
    contradiction

theorem append (holds : HoldsRows headers kinds width rows frame) (positive : 0 < width)
    (count : row.length = width) (accepted : AcceptsRow kinds row) :
    ∃ next, appendRow row frame = (.ok (), next) ∧
      HoldsRows headers kinds width (rows ++ [row]) next := by
  obtain ⟨next, appended, same, id, _, grown⟩ := appendRow_of_fits (holds.fits positive count accepted)
  have length : next.columns.length = frame.columns.length := same
  refine ⟨next, appended, by rw [length, holds.length], ?_, fun position column' there => ?_⟩
  · exact List.forall_mem_append.mpr ⟨holds.rectangular, by simpa using count⟩
  · have bound : position < frame.columns.length := by
      rw [← length]
      exact (List.getElem?_eq_some_iff.mp there).1
    have before := List.getElem?_eq_getElem bound
    obtain ⟨slot, value, next', atSlot, cell, atNext, grew⟩ := grown position _ before
    rw [there, Option.some.injEq] at atNext
    subst atNext
    have long : position < row.length := by rw [count, ← holds.length]; exact bound
    simp only [slots, holds.indexPosition?_eq, List.getElem?_map,
      List.getElem?_eq_getElem long, Option.map_some, Option.some.injEq] at atSlot
    subst atSlot
    rw [textsAt_concat (List.getElem?_eq_getElem long)]
    exact (holds.holds position _ before).grow cell grew

theorem append_wrong_width (holds : HoldsRows headers kinds width rows frame) (positive : 0 < width)
    (count : row.length ≠ width) :
    appendRow row frame = (.error (.columnCount width row.length), frame) := by
  rw [← holds.textWidth_eq] at count ⊢
  exact appendRow_of_refused (.columnCount (holds.columns_ne_nil positive) count)

/-- A row of the right width is refused for the leftmost text that is not accepted. -/
theorem append_unreadable (holds : HoldsRows headers kinds width rows frame)
    (count : row.length = width) {position : Nat} {kind : Kind} {text : String}
    (there : row[position]? = some text) (typed : kinds position = some kind)
    (unreadable : ¬ kind.reads text) (earlier : ∀ position' < position, ∀ text',
      row[position']? = some text' → Accepts (kinds position') text') :
    appendRow row frame =
      (.error (.notConvertible (headerAt headers position) text kind.name), frame) := by
  have bound : position < frame.columns.length := by
    rw [holds.length, ← count]
    exact (List.getElem?_eq_some_iff.mp there).1
  have column := List.getElem?_eq_getElem bound
  have held := holds.holds position _ column
  obtain ⟨inside, entry⟩ := List.getElem?_eq_some_iff.mp
    (holds.getElem?_entries.mpr ⟨column, there⟩)
  -- The entries are cut at the text at fault, in front of which every text is read.
  have split : frame.entries row = (frame.entries row).take position ++
      (frame.columns[position], some text) :: (frame.entries row).drop (position + 1) := by
    rw [← entry, List.getElem_cons_drop, List.take_append_drop]
  have columns : frame.columns ≠ [] := List.ne_nil_of_length_pos (by omega)
  have refused : RowRefused frame row (.notConvertible frame.columns[position].header text
      frame.columns[position].kind.name) := by
    refine .notConvertible columns (by rw [holds.textWidth_eq, count]) split ?_ ?_
    · intro column' text' member
      obtain ⟨position', atEntry⟩ := List.mem_iff_getElem?.mp member
      rw [List.getElem?_take] at atEntry
      split at atEntry
      next before =>
        obtain ⟨there', text'⟩ := holds.getElem?_entries.mp atEntry
        exact (holds.holds position' column' there').read_iff.mpr (earlier position' before _ text')
      next => contradiction
    · intro value read
      exact unreadable (held.read_iff.mp ⟨value, read⟩ kind typed)
  rw [typed] at held
  rw [held.header_eq, held.kind_eq] at refused
  exact appendRow_of_refused refused

end HoldsRows

/-! ## At once -/

theorem inferColumns_holds (doublePrecision : Bool) (rows : List (List String))
    (headers : List String) (position count : Nat) :
    ∃ columns, inferColumns doublePrecision rows headers position count = .ok columns ∧
      columns.length = count ∧
      ∀ (offset : Nat) (column : Column), columns[offset]? = some column →
        column.Holds (headerAt headers (position + offset))
          (kindAt doublePrecision rows (position + offset)) (textsAt rows (position + offset)) := by
  induction count generalizing position with
  | zero => exact ⟨[], rfl, rfl, by simp⟩
  | succ count inductionHypothesis =>
    obtain ⟨column, inferred, held⟩ := Column.holds_inferColumn doublePrecision
      (headerAt headers position) (textsAt rows position)
    obtain ⟨columns, rest, length, holds⟩ := inductionHypothesis (position + 1)
    refine ⟨column :: columns, ?_, by simp [length], fun offset column' there => ?_⟩
    · simp only [headerAt] at inferred
      simp only [inferColumns, inferred, rest]
      rfl
    · cases offset with
      | zero =>
        simp only [List.getElem?_cons_zero, Option.some.injEq] at there
        subst there
        exact held
      | succ offset =>
        have shifted : position + (offset + 1) = position + 1 + offset := by omega
        rw [shifted]
        exact holds offset column' (by simpa using there)

/-- Rows as long as their table is wide make a frame, and nothing else is asked of them. -/
theorem ofTexts_holds (rows : List (List String)) (headers : List String) (doublePrecision : Bool)
    (rectangular : ∀ row ∈ rows, row.length = inferredWidth rows headers) :
    ∃ frame, ofTexts rows headers doublePrecision = .ok frame ∧
      HoldsRows headers (kindAt doublePrecision rows) (inferredWidth rows headers) rows frame := by
  obtain ⟨columns, inferred, length, holds⟩ := inferColumns_holds doublePrecision rows headers 0
    (inferredWidth rows headers)
  have even : rows.find? (·.length ≠ inferredWidth rows headers) = none :=
    List.find?_eq_none.mpr fun row member => by simpa using rectangular row member
  refine ⟨⟨columns⟩, ?_, length, rectangular, fun position column there => ?_⟩
  · simp only [ofTexts, even, inferred]
    rfl
  · simpa using holds position column there

theorem inferredWidth_eq {rows : List (List String)} {headers : List String} {width : Nat}
    (sampled : rows ≠ []) (rectangular : ∀ row ∈ rows, row.length = width)
    (matching : headers = [] ∨ headers.length = width) : inferredWidth rows headers = width := by
  cases headers with
  | nil =>
    cases rows with
    | nil => contradiction
    | cons row rows => exact rectangular row (by simp)
  | cons header headers => simpa [inferredWidth] using matching

/-! ## Row by row -/

/-- Append rows of texts, up to the first that is refused. -/
def appendRows (frame : Frame) : List (List String) → Except TableError Frame
  | [] => .ok frame
  | row :: rows =>
    match appendRow row frame with
    | (.ok (), next) => appendRows next rows
    | (.error cause, _) => .error cause

theorem HoldsRows.appendRows {headers : List String} {kinds : Nat → Option Kind} {width : Nat}
    {rows more : List (List String)} {frame : Frame}
    (holds : HoldsRows headers kinds width rows frame) (positive : 0 < width)
    (rectangular : ∀ row ∈ more, row.length = width)
    (accepted : ∀ row ∈ more, AcceptsRow kinds row) :
    ∃ last, frame.appendRows more = .ok last ∧
      HoldsRows headers kinds width (rows ++ more) last := by
  induction more generalizing rows frame with
  | nil => exact ⟨frame, rfl, by simpa using holds⟩
  | cons row more inductionHypothesis =>
    obtain ⟨next, appended, holdsNext⟩ :=
      holds.append positive (rectangular row (by simp)) (accepted row (by simp))
    obtain ⟨last, rest, holdsLast⟩ := inductionHypothesis holdsNext
      (fun row' member => rectangular row' (List.mem_cons_of_mem _ member))
      (fun row' member => accepted row' (List.mem_cons_of_mem _ member))
    refine ⟨last, by simp [Frame.appendRows, appended, rest], by simpa using holdsLast⟩

theorem acceptsRow_kindAt (doublePrecision : Bool) {rows : List (List String)} {row : List String}
    (member : row ∈ rows) : AcceptsRow (kindAt doublePrecision rows) row := by
  intro position text there kind guessed
  exact inferKind_reads guessed (List.mem_filterMap.mpr ⟨row, member, there⟩)

/-- Kinds matter only where there are columns. -/
theorem HoldsRows.congr_kinds {headers : List String} {kinds kinds' : Nat → Option Kind}
    {width : Nat} {rows : List (List String)} {frame : Frame}
    (holds : HoldsRows headers kinds width rows frame)
    (same : ∀ position < width, kinds position = kinds' position) :
    HoldsRows headers kinds' width rows frame := by
  refine ⟨holds.length, holds.rectangular, fun position column there => ?_⟩
  have bound := (List.getElem?_eq_some_iff.mp there).1
  rw [← same position (holds.length ▸ bound)]
  exact holds.holds position column there

/-- A table made at once equals the one that is made of its first rows and then row by row,
    provided that the first rows suggest the same kinds as all of them.  No row is refused on the
    way.  The frames are equal in every respect: headers, order, kinds, cells, codes, category
    tables and ranges. -/
theorem ofTexts_append (first rest : List (List String)) (headers : List String)
    (doublePrecision : Bool) (width : Nat) (positive : 0 < width) (sampled : first ≠ [])
    (rectangular : ∀ row ∈ first ++ rest, row.length = width)
    (matching : headers = [] ∨ headers.length = width)
    (kinds : ∀ position < width, inferKind (textsAt first position) doublePrecision =
      inferKind (textsAt (first ++ rest) position) doublePrecision) :
    ∃ start whole, ofTexts first headers doublePrecision = .ok start ∧
      start.appendRows rest = .ok whole ∧
      ofTexts (first ++ rest) headers doublePrecision = .ok whole := by
  have rectangularFirst : ∀ row ∈ first, row.length = width :=
    fun row member => rectangular row (List.mem_append_left _ member)
  have widthFirst := inferredWidth_eq sampled rectangularFirst matching
  have widthAll := inferredWidth_eq (by simp [sampled]) rectangular matching
  obtain ⟨start, made, holdsStart⟩ := ofTexts_holds first headers doublePrecision
    (widthFirst.symm ▸ rectangularFirst)
  obtain ⟨whole, madeWhole, holdsWhole⟩ := ofTexts_holds (first ++ rest) headers doublePrecision
    (widthAll.symm ▸ rectangular)
  rw [widthFirst] at holdsStart
  rw [widthAll] at holdsWhole
  -- Both frames hold the same rows under the same kinds, so they are equal.
  have holdsStart' : HoldsRows headers (kindAt doublePrecision (first ++ rest)) width first start :=
    holdsStart.congr_kinds kinds
  obtain ⟨last, appended, holdsLast⟩ := holdsStart'.appendRows positive
    (fun row member => rectangular row (List.mem_append_right _ member))
    (fun row member => acceptsRow_kindAt doublePrecision (List.mem_append_right _ member))
  refine ⟨start, whole, made, ?_, madeWhole⟩
  rw [appended, holdsLast.unique holdsWhole]

/-- The gap in the first rows makes the number column real before the fraction is seen. -/
theorem ofTexts_append_gap :
    ∃ start whole, ofTexts [["1", "a"], ["", "b"]] [] false = .ok start ∧
      start.appendRows [["2.5", "a"]] = .ok whole ∧
      ofTexts ([["1", "a"], ["", "b"]] ++ [["2.5", "a"]]) [] false = .ok whole :=
  ofTexts_append [["1", "a"], ["", "b"]] [["2.5", "a"]] [] false 2 (by decide) (by decide)
    (by decide) (.inl rfl) (by decide +kernel)

end Frame

end LinkedTables
