import LinkedTables.Frame.Growth
import LinkedTables.Proofs.ColumnGrowth
import LinkedTables.Proofs.FirstRefusal

/-! # Appending a row is all or nothing

A row is appended in two passes over the columns: one reads every text, the other pushes what was
read.  `Frame.slots` says which text belongs to which column, so that both passes are walks over
the same list of pairs of a column and its slot, and the second cannot refuse what the first has
read. -/

namespace LinkedTables

/-- Identities run out at the greatest one, and only there. -/
theorem IndexColumn.nextId_error_iff {index : IndexColumn} {cause : TableError} :
    index.nextId = .error cause ↔
      ∃ greatest, index.greatest = some greatest ∧ greatest.val = 0xFFFFFFFFFFFFFFFF ∧
        cause = .identitiesExhausted index.header := by
  cases tracked : index.greatest with
  | none => simp [nextId, tracked]
  | some greatest =>
    have bound := greatest.isLt
    have count : Width.count .w64 = 0x10000000000000000 := rfl
    by_cases room : greatest.val + 1 < Width.count .w64
    · have next : index.nextId = .ok ⟨greatest.val + 1, room⟩ := by simp [nextId, tracked, room]
      have last : greatest.val ≠ 0xFFFFFFFFFFFFFFFF := by omega
      simp [next, last]
    · have next : index.nextId = .error (.identitiesExhausted index.header) := by
        simp [nextId, tracked, room]
      have last : greatest.val = 0xFFFFFFFFFFFFFFFF := by omega
      simp [next, last, eq_comm]

namespace Frame

/-- The text for each column of a new row, where the column that names the rows has none. -/
def slots (frame : Frame) (texts : List String) : List (Option String) :=
  match frame.indexPosition? with
  | some position => (texts.map some).insertIdx position none
  | none => texts.map some

/-- The columns, each with its slot. -/
def entries (frame : Frame) (texts : List String) : List (Column × Option String) :=
  frame.columns.zip (frame.slots texts)

/-- The value that a slot becomes: an identity, or what the column reads from the text. -/
def NewCell (id : Identity) (column : Column) : Option String → Value → Prop
  | none, value => value = .ofIdentity id
  | some text, value => column.read text = .ok value

/-- The cell of a slot as the first pass reads it. -/
def readSlot (entry : Column × Option String) : Except TableError (Option Value) :=
  match entry.2 with
  | none => .ok none
  | some text => (entry.1.read text).map some

@[simp] theorem readSlot_none (column : Column) : readSlot (column, none) = .ok none := rfl

@[simp] theorem readSlot_some (column : Column) (text : String) :
    readSlot (column, some text) = (column.read text).map some := rfl

/-! ## The column that names the rows -/

/-- The position and the content of the column that names the rows are those of one column. -/
theorem index?_of_indexPosition? {frame : Frame} {position : Nat}
    (designated : frame.indexPosition? = some position) :
    ∃ index, frame.columns[position]? = some (.index index) ∧ frame.index? = some index := by
  obtain ⟨columns⟩ := frame
  simp only [indexPosition?, index?] at designated ⊢
  induction columns generalizing position with
  | nil => simp at designated
  | cons column columns inductionHypothesis =>
    rw [List.findIdx?_cons] at designated
    cases column with
    | index index =>
      simp only [Column.isIndex, if_true, Option.some.injEq] at designated
      subst designated
      exact ⟨index, rfl, rfl⟩
    | plain _ | categorical _ =>
      simp only [Column.isIndex, Bool.false_eq_true, if_false, Option.map_eq_some_iff] at designated
      obtain ⟨position, designated, rfl⟩ := designated
      simpa [List.findSome?_cons] using inductionHypothesis designated

theorem indexPosition?_lt {frame : Frame} {position : Nat}
    (designated : frame.indexPosition? = some position) : position < frame.width := by
  obtain ⟨index, there, _⟩ := index?_of_indexPosition? designated
  exact (List.getElem?_eq_some_iff.mp there).1

theorem slots_length {frame : Frame} {texts : List String}
    (count : texts.length = frame.textWidth) :
    (frame.slots texts).length = frame.columns.length := by
  simp only [slots, textWidth] at count ⊢
  cases designated : frame.indexPosition? with
  | none => simpa [designated, width] using count
  | some position =>
    have bound := indexPosition?_lt designated
    simp only [designated, width, Option.isSome_some, if_true] at count bound
    rw [List.length_insertIdx]
    simp only [List.length_map]
    split <;> omega

/-! ## The first pass -/

/-- Where no column is passed over, texts and columns go in step. -/
theorem readRow_in_step (indexAt : Option Nat) (expected actual position : Nat)
    (columns : List Column) (texts : List String)
    (behind : ∀ offset, indexAt ≠ some (position + offset))
    (count : texts.length = columns.length) :
    readRow indexAt expected actual position columns texts =
      (columns.zip (texts.map some)).mapM readSlot := by
  induction columns generalizing texts position with
  | nil => rfl
  | cons column columns inductionHypothesis =>
    cases texts with
    | nil => simp at count
    | cons text texts =>
      have here : indexAt ≠ some position := behind 0
      have rest := inductionHypothesis (position + 1) texts
        (fun offset => by rw [Nat.add_assoc]; exact behind (1 + offset)) (by simpa using count)
      rw [readRow, if_neg here, rest]
      simp only [List.map_cons, List.zip_cons_cons, mapM_except_cons, readSlot]
      cases column.read text with
      | error e => rfl
      | ok value => cases (columns.zip (texts.map some)).mapM readSlot <;> rfl

/-- One column is passed over, and the texts before and behind it keep their columns. -/
theorem readRow_passing (expected actual offset position : Nat) (columns : List Column)
    (texts : List String) (bound : offset < columns.length)
    (count : texts.length + 1 = columns.length) :
    readRow (some (position + offset)) expected actual position columns texts =
      (columns.zip ((texts.map some).insertIdx offset none)).mapM readSlot := by
  -- The columns before the one passed over go in step, so the induction is on how many they are.
  induction offset generalizing columns texts position with
  | zero =>
    cases columns with
    | nil => simp at bound
    | cons column columns =>
      have rest := readRow_in_step (some position) expected actual (position + 1) columns texts
        (fun offset => by simp; omega) (by simpa using count)
      rw [readRow.eq_def]
      simp only [Nat.add_zero, if_true, rest]
      simp only [List.insertIdx_zero, List.zip_cons_cons, mapM_except_cons, readSlot]
      cases (columns.zip (texts.map some)).mapM readSlot <;> rfl
  | succ offset inductionHypothesis =>
    cases columns with
    | nil => simp at bound
    | cons column columns =>
      cases texts with
      | nil =>
        simp only [List.length_cons, List.length_nil] at bound count
        omega
      | cons text texts =>
        have rest := inductionHypothesis (position + 1) columns texts (by simpa using bound)
          (by simpa using count)
        rw [Nat.add_assoc, Nat.add_comm 1] at rest
        rw [readRow, if_neg (by simp), rest]
        simp only [List.map_cons, List.insertIdx_succ_cons, List.zip_cons_cons, mapM_except_cons,
          readSlot]
        cases column.read text with
        | error e => rfl
        | ok value =>
          cases (columns.zip ((texts.map some).insertIdx offset none)).mapM readSlot <;> rfl

theorem readRow_eq_entries {frame : Frame} {texts : List String}
    (count : texts.length = frame.textWidth) :
    readRow frame.indexPosition? frame.textWidth texts.length 0 frame.columns texts =
      (frame.entries texts).mapM readSlot := by
  simp only [entries, slots]
  cases designated : frame.indexPosition? with
  | none =>
    exact readRow_in_step none _ _ 0 frame.columns texts (by simp)
      (by simpa [textWidth, designated, width] using count)
  | some position =>
    have bound := indexPosition?_lt designated
    simp only [textWidth, designated, width, Option.isSome_some, if_true] at count bound
    simpa using readRow_passing _ _ position 0 frame.columns texts bound (by omega)

/-! ## The second pass -/

/-- What the columns read they do not refuse, so every column grows by the value of its slot. -/
theorem pushRow_grown (id : Identity) {entries : List (Column × Option String)}
    {cells : List (Option Value)} (read : entries.mapM readSlot = .ok cells)
    (named : ∀ column, (column, none) ∈ entries → ∃ index, column = .index index) :
    ∃ after, pushRow id (entries.map Prod.fst) cells = (.ok (), after) ∧
      List.Forall₂ (fun entry next => ∃ value, NewCell id entry.1 entry.2 value ∧
        entry.1.Grown value next) entries after := by
  induction entries generalizing cells with
  | nil =>
    rw [mapM_eq_ok_iff, List.forall₂_nil_left_iff] at read
    subst read
    exact ⟨[], rfl, .nil⟩
  | cons entry entries inductionHypothesis =>
    rw [mapM_eq_ok_iff, List.forall₂_cons_left_iff] at read
    obtain ⟨cell, cells, here, rest, rfl⟩ := read
    obtain ⟨after, pushed, grown⟩ := inductionHypothesis (mapM_eq_ok_iff.mpr rest)
      (fun column member => named column (List.mem_cons_of_mem _ member))
    obtain ⟨column, slot⟩ := entry
    cases slot with
    | none =>
      -- Only an index column takes an identity; the first pass has read nothing for it.
      obtain ⟨index, rfl⟩ := named column (by simp)
      cases here
      refine ⟨.index (index.push id) :: after, ?_, .cons ⟨_, rfl, ?_⟩ grown⟩
      · simp [pushRow, pushed]
      · exact Column.grown_identity index id
    | some text =>
      simp only [readSlot] at here
      cases value : column.read text with
      | error e => simp [value, Except.map] at here
      | ok value' =>
        simp only [value, Except.map, Except.ok.injEq] at here
        subst here
        obtain ⟨next, accepted, grew⟩ := Column.push_read value
        refine ⟨next :: after, ?_, .cons ⟨value', value, grew⟩ grown⟩
        simp [pushRow, accepted, pushed]

/-- Only the column that names the rows has no text. -/
theorem entries_named {frame : Frame} {texts : List String} {column : Column}
    (member : (column, none) ∈ frame.entries texts) : ∃ index, column = .index index := by
  obtain ⟨position, there⟩ := List.mem_iff_getElem?.mp member
  rw [entries, List.getElem?_zip_eq_some] at there
  simp only [slots] at there
  cases designated : frame.indexPosition? with
  | none => simp [designated] at there
  | some named =>
    obtain ⟨index, column', _⟩ := index?_of_indexPosition? designated
    simp only [designated, List.getElem?_insertIdx] at there
    -- Elsewhere the slot would hold a text.
    have same : position = named := by
      by_contra different
      obtain ⟨_, slot⟩ := there
      split at slot <;> simp at slot
    subst same
    exact ⟨index, Option.some.inj (there.1.symm.trans column')⟩

theorem map_fst_entries {frame : Frame} {texts : List String}
    (count : texts.length = frame.textWidth) :
    (frame.entries texts).map Prod.fst = frame.columns :=
  List.map_fst_zip (Nat.le_of_eq (slots_length count).symm)

/-! ## The outcome -/

/-- A row that a frame takes. -/
structure RowFits (frame : Frame) (texts : List String) : Prop where
  columns : frame.columns ≠ []
  count : texts.length = frame.textWidth
  readable : ∀ column text, (column, some text) ∈ frame.entries texts →
    ∃ value, column.read text = .ok value
  identity : ∀ index greatest, frame.index? = some index → index.greatest = some greatest →
    greatest.val ≠ 0xFFFFFFFFFFFFFFFF

/-- Why a frame does not take a row, the first of four causes that applies. -/
inductive RowRefused (frame : Frame) (texts : List String) : TableError → Prop where
  | noColumns (columns : frame.columns = []) : RowRefused frame texts .noColumns
  | columnCount (columns : frame.columns ≠ []) (count : texts.length ≠ frame.textWidth) :
      RowRefused frame texts (.columnCount frame.textWidth texts.length)
  | notConvertible (columns : frame.columns ≠ []) (count : texts.length = frame.textWidth)
      {before after : List (Column × Option String)} {column : Column} {text : String}
      (split : frame.entries texts = before ++ (column, some text) :: after)
      (readable : ∀ column text, (column, some text) ∈ before →
        ∃ value, column.read text = .ok value)
      (unreadable : ∀ value, column.read text ≠ .ok value) :
      RowRefused frame texts (.notConvertible column.header text column.kind.name)
  | identitiesExhausted (columns : frame.columns ≠ []) (count : texts.length = frame.textWidth)
      (readable : ∀ column text, (column, some text) ∈ frame.entries texts →
        ∃ value, column.read text = .ok value)
      {index : IndexColumn} {greatest : Identity} (designated : frame.index? = some index)
      (tracked : index.greatest = some greatest) (last : greatest.val = 0xFFFFFFFFFFFFFFFF) :
      RowRefused frame texts (.identitiesExhausted index.header)

/-- A row appended to a frame: every column, in its place, has grown by the value of its slot. -/
structure RowAppended (texts : List String) (before after : Frame) : Prop where
  width : after.width = before.width
  grown : ∃ id, before.nextId = .ok id ∧
    ∀ (position : Nat) (column : Column), before.columns[position]? = some column →
      ∃ (slot : Option String) (value : Value) (next : Column),
        (before.slots texts)[position]? = some slot ∧
        NewCell id column slot value ∧ after.columns[position]? = some next ∧
        column.Grown value next

/-- A slot is read unless its text is none of the column's. -/
theorem readSlot_ok_iff {entry : Column × Option String} :
    (∃ cell, readSlot entry = .ok cell) ↔
      ∀ text, entry.2 = some text → ∃ value, entry.1.read text = .ok value := by
  obtain ⟨column, slot⟩ := entry
  cases slot with
  | none => simp
  | some text =>
    simp only [readSlot, Option.some.injEq, forall_eq']
    cases column.read text <;> simp [Except.map]

theorem readSlot_error_iff {column : Column} {slot : Option String} {cause : TableError} :
    readSlot (column, slot) = .error cause ↔
      ∃ text, slot = some text ∧ column.read text = .error cause := by
  cases slot with
  | none => simp
  | some text =>
    simp only [readSlot, Option.some.injEq, exists_eq_left']
    cases column.read text <;> simp [Except.map]

theorem nextId_error_iff {frame : Frame} {cause : TableError} :
    frame.nextId = .error cause ↔
      ∃ index greatest, frame.index? = some index ∧ index.greatest = some greatest ∧
        greatest.val = 0xFFFFFFFFFFFFFFFF ∧ cause = .identitiesExhausted index.header := by
  simp only [nextId]
  cases frame.index? with
  | none => simp
  | some index => simp [IndexColumn.nextId_error_iff]

theorem nextId_ok_of_identity {frame : Frame}
    (identity : ∀ index greatest, frame.index? = some index → index.greatest = some greatest →
      greatest.val ≠ 0xFFFFFFFFFFFFFFFF) : ∃ id, frame.nextId = .ok id := by
  cases next : frame.nextId with
  | ok id => exact ⟨id, rfl⟩
  | error cause =>
    obtain ⟨index, greatest, designated, tracked, last, _⟩ := nextId_error_iff.mp next
    exact absurd last (identity index greatest designated tracked)

theorem grown_at {id : Identity} {columns after : List Column} {slots : List (Option String)}
    (grown : List.Forall₂ (fun entry next => ∃ value, NewCell id entry.1 entry.2 value ∧
      entry.1.Grown value next) (columns.zip slots) after)
    (count : slots.length = columns.length) {position : Nat} {column : Column}
    (there : columns[position]? = some column) :
    ∃ (slot : Option String) (value : Value) (next : Column), slots[position]? = some slot ∧
      NewCell id column slot value ∧ after[position]? = some next ∧ column.Grown value next := by
  have same : (columns.zip slots).length = after.length := grown.length_eq
  obtain ⟨bound, equal⟩ := List.getElem?_eq_some_iff.mp there
  have inside : position < (columns.zip slots).length := by simp [count, bound]
  obtain ⟨value, cell, grew⟩ := grown.get inside (same ▸ inside)
  refine ⟨slots[position], value, after[position], ?_, ?_, ?_, ?_⟩
  · exact List.getElem?_eq_getElem _
  · simpa [equal] using cell
  · exact List.getElem?_eq_getElem _
  · simpa [equal] using grew

theorem appendRow_of_count {frame : Frame} {texts : List String} (columns : frame.columns ≠ [])
    (count : texts.length = frame.textWidth) :
    appendRow texts frame =
      match (frame.entries texts).mapM readSlot with
      | .error e => (.error e, frame)
      | .ok cells =>
        match frame.nextId with
        | .error e => (.error e, frame)
        | .ok id =>
          let (answer, columns) := pushRow id frame.columns cells
          (answer, ⟨columns⟩) := by
  rewrite [appendRow, if_neg (by simpa using columns), if_neg (not_not.mpr count),
    readRow_eq_entries count]
  rfl

theorem appendRow_of_fits {frame : Frame} {texts : List String} (fits : frame.RowFits texts) :
    ∃ after, appendRow texts frame = (.ok (), after) ∧ RowAppended texts frame after := by
  obtain ⟨cells, read⟩ := exists_mapM_eq_ok_iff.mpr fun (entry : Column × Option String) member =>
    readSlot_ok_iff.mpr fun text slot => fits.readable entry.1 text (slot ▸ member)
  obtain ⟨id, next⟩ := nextId_ok_of_identity fits.identity
  obtain ⟨after, pushed, grown⟩ := pushRow_grown id read fun _ member => entries_named member
  rw [map_fst_entries fits.count] at pushed
  refine ⟨⟨after⟩, ?_, ?_, id, next, ?_⟩
  · simp only [appendRow_of_count fits.columns fits.count, read, next, pushed]
  · have same := grown.length_eq
    simpa [entries, width, slots_length fits.count] using same.symm
  · intro position column there
    exact grown_at grown (slots_length fits.count) there

theorem appendRow_of_refused {frame : Frame} {texts : List String} {cause : TableError}
    (refused : RowRefused frame texts cause) : appendRow texts frame = (.error cause, frame) := by
  cases refused with
  | noColumns columns => simp [appendRow, columns]
  | columnCount columns count =>
    have columns : frame.columns.isEmpty = false := by simpa using columns
    simp [appendRow, columns, count]
  | @notConvertible columns count before after column text split readable unreadable =>
    have refused : column.read text =
        .error (.notConvertible column.header text column.kind.name) := by
      cases read : column.read text with
      | ok value => exact absurd read (unreadable value)
      | error cause => rw [Column.read_error read]
    have stopped := mapM_eq_error_iff.mpr ⟨before, _, after, split,
      fun entry member => readSlot_ok_iff.mpr fun text slot =>
        readable entry.1 text (slot ▸ member),
      readSlot_error_iff.mpr ⟨text, rfl, refused⟩⟩
    simp only [appendRow_of_count columns count, stopped]
  | identitiesExhausted columns count readable designated tracked last =>
    obtain ⟨cells, read⟩ := exists_mapM_eq_ok_iff.mpr fun (entry : Column × Option String) member =>
      readSlot_ok_iff.mpr fun text slot => readable entry.1 text (slot ▸ member)
    have exhausted := nextId_error_iff.mpr ⟨_, _, designated, tracked, last, rfl⟩
    simp only [appendRow_of_count columns count, read, exhausted]

/-- The causes leave no gap: a row that fits no cause of refusal fits the frame. -/
theorem fits_or_refused (frame : Frame) (texts : List String) :
    frame.RowFits texts ∨ ∃ cause, RowRefused frame texts cause := by
  by_cases columns : frame.columns = []
  · exact .inr ⟨_, .noColumns columns⟩
  by_cases count : texts.length = frame.textWidth
  case neg => exact .inr ⟨_, .columnCount columns count⟩
  cases read : (frame.entries texts).mapM readSlot with
  | error cause =>
    obtain ⟨before, ⟨column, slot⟩, after, split, passed, refused⟩ := mapM_eq_error_iff.mp read
    obtain ⟨text, rfl, unreadable⟩ := readSlot_error_iff.mp refused
    refine .inr ⟨_, .notConvertible columns count split (fun column text member => ?_)
      (fun value accepted => ?_)⟩
    · exact readSlot_ok_iff.mp (passed _ member) text rfl
    · rw [accepted] at unreadable
      contradiction
  | ok cells =>
    have readable : ∀ column text, (column, some text) ∈ frame.entries texts →
        ∃ value, column.read text = .ok value := fun column text member =>
      readSlot_ok_iff.mp (exists_mapM_eq_ok_iff.mp ⟨cells, read⟩ _ member) text rfl
    by_cases exhausted : ∃ index greatest, frame.index? = some index ∧
        index.greatest = some greatest ∧ greatest.val = 0xFFFFFFFFFFFFFFFF
    · obtain ⟨index, greatest, designated, tracked, last⟩ := exhausted
      exact .inr ⟨_, .identitiesExhausted columns count readable designated tracked last⟩
    · refine .inl ⟨columns, count, readable, fun index greatest designated tracked last => ?_⟩
      exact exhausted ⟨index, greatest, designated, tracked, last⟩

/-- A row is appended or refused, and a refusal leaves the frame as it was. -/
theorem appendRow_cases (texts : List String) (frame : Frame) :
    (∃ after, appendRow texts frame = (.ok (), after) ∧ frame.RowFits texts ∧
      RowAppended texts frame after) ∨
    ∃ cause, appendRow texts frame = (.error cause, frame) ∧ RowRefused frame texts cause := by
  rcases fits_or_refused frame texts with fits | ⟨cause, refused⟩
  · obtain ⟨after, accepted, appended⟩ := appendRow_of_fits fits
    exact .inl ⟨after, accepted, fits, appended⟩
  · exact .inr ⟨cause, appendRow_of_refused refused, refused⟩

theorem rowAppended_of_ok {texts : List String} {frame after : Frame}
    (accepted : appendRow texts frame = (.ok (), after)) : RowAppended texts frame after := by
  rcases appendRow_cases texts frame with ⟨next, taken, _, appended⟩ | ⟨cause, refused, _⟩
  · rw [accepted] at taken
    cases taken
    exact appended
  · rw [accepted] at refused
    cases refused

theorem eq_of_refused {texts : List String} {frame after : Frame} {cause : TableError}
    (refused : appendRow texts frame = (.error cause, after)) : after = frame := by
  rcases appendRow_cases texts frame with ⟨next, taken, _, _⟩ | ⟨cause', unchanged, _⟩
  · rw [refused] at taken
    cases taken
  · rw [refused] at unchanged
    exact (Prod.mk.inj unchanged).2

/-! ## All or nothing -/

namespace RowAppended

variable {texts : List String} {before after : Frame}

theorem at_position (appended : RowAppended texts before after) {position : Nat}
    {column next : Column} (there : before.columns[position]? = some column)
    (here : after.columns[position]? = some next) :
    ∃ id slot value, before.nextId = .ok id ∧ (before.slots texts)[position]? = some slot ∧
      NewCell id column slot value ∧ column.Grown value next := by
  obtain ⟨id, named, grown⟩ := appended.grown
  obtain ⟨slot, value, next', atSlot, cell, here', grew⟩ := grown position column there
  rw [here, Option.some.injEq] at here'
  subst here'
  exact ⟨id, slot, value, named, atSlot, cell, grew⟩

theorem map_eq {β : Type} {f g : Column → β} (appended : RowAppended texts before after)
    (grows : ∀ value column next, Column.Grown value column next → f next = g column) :
    after.columns.map f = before.columns.map g := by
  have length : after.columns.length = before.columns.length := appended.width
  refine List.ext_getElem (by simpa using length) fun position here there => ?_
  simp only [List.length_map] at here there
  obtain ⟨_, _, value, _, _, _, grew⟩ := appended.at_position (List.getElem?_eq_getElem there)
    (List.getElem?_eq_getElem here)
  simpa using grows value _ _ grew

theorem headers (appended : RowAppended texts before after) : after.headers = before.headers :=
  appended.map_eq fun _ _ _ grew => by rw [grew.header, grew.format]

theorem sizes (appended : RowAppended texts before after) :
    after.columns.map Column.size = before.columns.map fun column => column.size + 1 :=
  appended.map_eq fun _ _ _ grew => grew.size

theorem shows (appended : RowAppended texts before after) {position : Nat}
    {column next : Column} (there : before.columns[position]? = some column)
    (here : after.columns[position]? = some next) :
    next.size = column.size + 1 ∧
      (∀ shownAsText row value, column.value shownAsText row = .ok value →
        next.value shownAsText row = .ok value) ∧
      ∃ id slot value, before.nextId = .ok id ∧ (before.slots texts)[position]? = some slot ∧
        NewCell id column slot value ∧
        ((∀ table, column = .categorical table → table.categories.size < Width.count .w32) →
          next.value true column.size = .ok value) := by
  obtain ⟨id, slot, value, named, atSlot, cell, grew⟩ := appended.at_position there here
  refine ⟨grew.size, fun _ _ _ shown => grew.value_of_ok shown, ?_⟩
  exact ⟨id, slot, value, named, atSlot, cell, grew.value_last⟩

end RowAppended

/-- A row is appended as a whole or not at all.  A frame takes a row exactly if it fits; then
    every column keeps its place, its header and its cells, and has one more cell at its end, that
    of its slot.  A refusal leaves the frame as it was, and its cause is the first of four that
    applies.  The second pass over the columns refuses nothing that the first has read, and the
    column that the first passes over is the one whose next identity the row gets. -/
theorem appendRow_all_or_nothing (frame : Frame) (texts : List String) :
    ((appendRow texts frame).1 = .ok () ↔ frame.RowFits texts) ∧
    ((appendRow texts frame).1 = .ok () →
      RowAppended texts frame (appendRow texts frame).2 ∧
      (appendRow texts frame).2.headers = frame.headers ∧
      ∀ (position : Nat) (column next : Column), frame.columns[position]? = some column →
        (appendRow texts frame).2.columns[position]? = some next →
        next.size = column.size + 1 ∧
        (∀ shownAsText row value, column.value shownAsText row = .ok value →
          next.value shownAsText row = .ok value) ∧
        ∃ id slot value, frame.nextId = .ok id ∧ (frame.slots texts)[position]? = some slot ∧
          NewCell id column slot value ∧
          ((∀ table, column = .categorical table → table.categories.size < Width.count .w32) →
            next.value true column.size = .ok value)) ∧
    (∀ cause, (appendRow texts frame).1 = .error cause ↔ RowRefused frame texts cause) ∧
    (∀ cause, (appendRow texts frame).1 = .error cause → (appendRow texts frame).2 = frame) ∧
    (∀ id cells, texts.length = frame.textWidth →
      readRow frame.indexPosition? frame.textWidth texts.length 0 frame.columns texts = .ok cells →
        (pushRow id frame.columns cells).1 = .ok ()) ∧
    (∀ position, frame.indexPosition? = some position →
      ∃ index, frame.columns[position]? = some (.index index) ∧ frame.index? = some index) := by
  -- The second pass meets the very texts that the first one has read.
  have pushes : ∀ id cells, texts.length = frame.textWidth →
      readRow frame.indexPosition? frame.textWidth texts.length 0 frame.columns texts = .ok cells →
        (pushRow id frame.columns cells).1 = .ok () := by
    intro id cells count read
    rw [readRow_eq_entries count] at read
    obtain ⟨after, pushed, _⟩ := pushRow_grown id read fun _ member => entries_named member
    rw [map_fst_entries count] at pushed
    rw [pushed]
  have designates : ∀ position, frame.indexPosition? = some position →
      ∃ index, frame.columns[position]? = some (.index index) ∧ frame.index? = some index :=
    fun _ designated => index?_of_indexPosition? designated
  -- Either the row fits or there is a cause, and what happens in each case settles every part.
  rcases fits_or_refused frame texts with fits | ⟨cause, refused⟩
  · obtain ⟨after, accepted, appended⟩ := appendRow_of_fits fits
    have takes : ∀ cause, ¬ RowRefused frame texts cause := by
      intro cause refused
      rw [appendRow_of_refused refused] at accepted
      cases accepted
    refine ⟨?_, ?_, ?_, ?_, pushes, designates⟩
    · simp [accepted, fits]
    · intro _
      rw [accepted]
      exact ⟨appended, appended.headers, fun _ _ _ there here => appended.shows there here⟩
    · simp [accepted, takes]
    · simp [accepted]
  · have outcome := appendRow_of_refused refused
    have misfits : ¬ frame.RowFits texts := by
      intro fits
      obtain ⟨after, accepted, _⟩ := appendRow_of_fits fits
      rw [accepted] at outcome
      cases outcome
    refine ⟨?_, ?_, ?_, ?_, pushes, designates⟩
    · simp [outcome, misfits]
    · simp [outcome]
    · intro cause'
      constructor
      · intro stated
        rw [outcome, Except.error.injEq] at stated
        exact stated ▸ refused
      · intro refused'
        rw [appendRow_of_refused refused']
    · simp [outcome]

end Frame

end LinkedTables
