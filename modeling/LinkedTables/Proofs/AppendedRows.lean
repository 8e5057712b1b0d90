import LinkedTables.Proofs.Construction
import LinkedTables.Proofs.IndexLength

/-! # A table is an append-only list of rows

A row that is taken comes to stand behind the rows that a table has, and nothing that is offered
later changes what is shown of it, although the columns share what they grow by: an earlier row and a
later one of the same text share a category, and identities are counted on from row to row.  A row
that is refused might as well not have been offered.  One row is settled first, by what it means for
a column to grow; any number of rows follow by induction. -/

namespace LinkedTables

namespace Column

variable {before after column : Column} {value : Value} {row : Nat}

/-- There are codes for all categories. -/
def Coded : Column → Prop
  | .categorical table => table.categories.size ≤ Width.count .w32
  | .plain _ | .index _ => True

instance : DecidablePred Coded
  | .categorical table => inferInstanceAs (Decidable (table.categories.size ≤ Width.count .w32))
  | .plain _ | .index _ => inferInstanceAs (Decidable True)

theorem Grown.coded (grown : Grown value before after) (coded : after.Coded) : before.Coded := by
  cases grown with
  | plain | index => trivial
  | category => exact coded
  | newCategory =>
    rw [Coded, Array.size_push] at coded
    exact Nat.le_of_succ_le coded

theorem Grown.value_of_coded (grown : Grown value before after) (coded : after.Coded) :
    after.value true before.size = .ok value := by
  refine grown.value_new fun table equal => ?_
  subst equal
  exact coded

/-- Every code is that of a category. -/
def Named : Column → Prop
  | .categorical table => ∀ code ∈ table.codes, code.val < table.categories.size
  | .plain _ | .index _ => True

theorem Built.named (built : column.Built) : column.Named := by
  cases built.made with
  | plain | index => trivial
  | @categorical header origin changes categorical run =>
    have stores := (CategoricalColumn.stores_origin header origin).changed changes
    rw [← run.eq_changed] at stores
    exact fun code member => stores.code_lt member

theorem Named.value_ok (named : column.Named) (bound : row < column.size) (shownAsText : Bool) :
    ∃ value, column.value shownAsText row = .ok value := by
  cases column with
  | plain plain => exact ⟨_, value_plain.mpr ⟨_, Array.getElem?_eq_getElem bound, rfl⟩⟩
  | categorical table =>
    have there : table.codes[row]? = some table.codes[row] := Array.getElem?_eq_getElem bound
    cases shownAsText with
    | false => exact ⟨_, value_code.mpr ⟨_, there, rfl⟩⟩
    | true =>
      have known := named _ (Array.mem_of_getElem? there)
      exact ⟨_, value_text.mpr ⟨_, _, there, Array.getElem?_eq_getElem known, rfl⟩⟩
  | index index => exact ⟨_, value_identity.mpr ⟨_, Array.getElem?_eq_getElem bound, rfl⟩⟩

end Column

namespace IndexColumn

variable {index : IndexColumn} {id following : Identity}

theorem greatest_push_next (next : index.nextId = .ok id) : (index.push id).greatest = some id := by
  simp only [nextId, push] at next ⊢
  cases tracked : index.greatest with
  | none => rfl
  | some greatest =>
    rw [tracked] at next
    simp only at next
    split at next
    next =>
      cases next
      simp [Identity.raise]
    next => contradiction

theorem nextId_push (next : index.nextId = .ok id)
    (behind : (index.push id).nextId = .ok following) : following.val = id.val + 1 := by
  rw [nextId, greatest_push_next next] at behind
  simp only at behind
  split at behind
  next =>
    cases behind
    rfl
  next => contradiction

end IndexColumn

namespace Frame

variable {frame before after last : Frame} {texts : List String} {rows : List (List String)}
  {shownAsText : Bool} {row : Nat} {values : List Value} {id : Identity}

/-! ## What a row shows -/

theorem isConsistent_iff :
    frame.isConsistent = true ↔ ∀ column ∈ frame.columns, column.size = frame.rows := by
  simp [isConsistent]

theorem row_eq_ok_iff :
    frame.row shownAsText row = .ok values ↔ row < frame.rows ∧
      List.Forall₂ (fun column value => column.value shownAsText row = .ok value)
        frame.columns values := by
  rw [Frame.row]
  split
  next bound => rw [mapM_eq_ok_iff, and_iff_right bound]
  next beyond => simp [beyond]

theorem length_of_row (shown : frame.row shownAsText row = .ok values) :
    values.length = frame.width :=
  (row_eq_ok_iff.mp shown).2.length_eq.symm

theorem row_at {position : Nat} {column : Column}
    (shown : frame.row shownAsText row = .ok values)
    (there : frame.columns[position]? = some column) :
    ∃ value, values[position]? = some value ∧ column.value shownAsText row = .ok value := by
  obtain ⟨_, cells⟩ := row_eq_ok_iff.mp shown
  obtain ⟨bound, rfl⟩ := List.getElem?_eq_some_iff.mp there
  have inside : position < values.length := cells.length_eq ▸ bound
  exact ⟨values[position], List.getElem?_eq_getElem inside, cells.get bound inside⟩

/-- A table whose columns are equally long shows exactly the rows that it has. -/
theorem Built.row_ok_iff (built : frame.Built) (consistent : frame.isConsistent = true)
    (shownAsText : Bool) (row : Nat) :
    (∃ values, frame.row shownAsText row = .ok values) ↔ row < frame.rows := by
  constructor
  · rintro ⟨values, shown⟩
    exact (row_eq_ok_iff.mp shown).1
  · intro bound
    rw [Frame.row, if_pos bound, exists_mapM_eq_ok_iff]
    intro column member
    rw [← isConsistent_iff.mp consistent column member] at bound
    exact (built.columns column member).named.value_ok bound shownAsText

/-- The values that a row of texts has under an identity, one in each column. -/
def RowReads (frame : Frame) (texts : List String) (id : Identity) (values : List Value) : Prop :=
  ∀ (position : Nat) (column : Column), frame.columns[position]? = some column →
    ∃ (slot : Option String) (value : Value), (frame.slots texts)[position]? = some slot ∧
      NewCell id column slot value ∧ values[position]? = some value

/-! ## One row -/

namespace RowAppended

theorem slots_eq (appended : RowAppended texts before after) (others : List String) :
    after.slots others = before.slots others := by
  simp only [slots, appended.indexPosition?_eq]

theorem coded (appended : RowAppended texts before after)
    (coded : ∀ column ∈ after.columns, column.Coded) : ∀ column ∈ before.columns, column.Coded := by
  intro column member
  obtain ⟨id, _, grown⟩ := appended.grown
  obtain ⟨position, there⟩ := List.mem_iff_getElem?.mp member
  obtain ⟨_, _, next, _, _, here, grew⟩ := grown position column there
  exact grew.coded (coded next (List.mem_of_getElem? here))

theorem size_eq (appended : RowAppended texts before after)
    (consistent : before.isConsistent = true) {column : Column} (member : column ∈ after.columns) :
    column.size = before.rows + 1 := by
  have grown : column.size ∈ before.columns.map fun column => column.size + 1 :=
    appended.sizes ▸ List.mem_map_of_mem member
  obtain ⟨old, old_member, equal⟩ := List.mem_map.mp grown
  rw [← equal, isConsistent_iff.mp consistent old old_member]

theorem rows_eq (appended : RowAppended texts before after)
    (consistent : before.isConsistent = true) (columns : before.columns ≠ []) :
    after.rows = before.rows + 1 := by
  refine longest_eq (fun column member => appended.size_eq consistent member) fun bare => ?_
  have width := appended.width
  rw [Frame.width, bare, List.length_nil, eq_comm, Frame.width, List.length_eq_zero_iff] at width
  contradiction

theorem isConsistent (appended : RowAppended texts before after)
    (consistent : before.isConsistent = true) (columns : before.columns ≠ []) :
    after.isConsistent = true := by
  rw [isConsistent_iff, appended.rows_eq consistent columns]
  exact fun column member => appended.size_eq consistent member

theorem row_of_ok (appended : RowAppended texts before after)
    (consistent : before.isConsistent = true) (columns : before.columns ≠ [])
    (shown : before.row shownAsText row = .ok values) :
    after.row shownAsText row = .ok values := by
  obtain ⟨bound, cells⟩ := row_eq_ok_iff.mp shown
  have width : after.columns.length = before.columns.length := appended.width
  rw [row_eq_ok_iff, appended.rows_eq consistent columns]
  refine ⟨Nat.lt_succ_of_lt bound, ?_⟩
  rw [List.forall₂_iff_get] at cells ⊢
  refine ⟨width.trans cells.1, fun position here there => ?_⟩
  obtain ⟨_, _, _, _, _, _, grew⟩ := appended.at_position
    (List.getElem?_eq_getElem (width ▸ here)) (List.getElem?_eq_getElem here)
  exact grew.value_of_ok (cells.2 position (width ▸ here) there)

theorem shows_new (appended : RowAppended texts before after)
    (consistent : before.isConsistent = true) (coded : ∀ column ∈ after.columns, column.Coded) :
    ∃ id, before.nextId = .ok id ∧
      ∀ (position : Nat) (column : Column), before.columns[position]? = some column →
        ∃ (slot : Option String) (value : Value) (next : Column),
          (before.slots texts)[position]? = some slot ∧ NewCell id column slot value ∧
          after.columns[position]? = some next ∧ next.value true before.rows = .ok value := by
  obtain ⟨id, named, grown⟩ := appended.grown
  refine ⟨id, named, fun position column there => ?_⟩
  obtain ⟨slot, value, next, at_slot, cell, here, grew⟩ := grown position column there
  refine ⟨slot, value, next, at_slot, cell, here, ?_⟩
  rw [← isConsistent_iff.mp consistent column (List.mem_of_getElem? there)]
  exact grew.value_of_coded (coded next (List.mem_of_getElem? here))

theorem row_new (appended : RowAppended texts before after)
    (consistent : before.isConsistent = true) (columns : before.columns ≠ [])
    (coded : ∀ column ∈ after.columns, column.Coded) :
    ∃ id values, before.nextId = .ok id ∧ after.row true before.rows = .ok values ∧
      before.RowReads texts id values := by
  obtain ⟨id, named, shows⟩ := appended.shows_new consistent coded
  have shown : ∃ values, after.row true before.rows = .ok values := by
    rw [Frame.row, appended.rows_eq consistent columns, if_pos (Nat.lt_succ_self _),
      exists_mapM_eq_ok_iff]
    intro next member
    obtain ⟨position, here⟩ := List.mem_iff_getElem?.mp member
    have bound : position < before.width := by
      rw [← appended.width]
      exact (List.getElem?_eq_some_iff.mp here).1
    obtain ⟨_, value, _, _, _, here', shown⟩ := shows position _ (List.getElem?_eq_getElem bound)
    rw [here, Option.some.injEq] at here'
    exact ⟨value, here' ▸ shown⟩
  obtain ⟨values, shown⟩ := shown
  refine ⟨id, values, named, shown, fun position column there => ?_⟩
  obtain ⟨slot, value, next, at_slot, cell, here, shown_here⟩ := shows position column there
  obtain ⟨value', present, same⟩ := row_at shown here
  rw [shown_here, Except.ok.injEq] at same
  exact ⟨slot, value, at_slot, cell, same ▸ present⟩

theorem rowReads (appended : RowAppended texts before after) {others : List String}
    (reads : after.RowReads others id values) : before.RowReads others id values := by
  obtain ⟨_, _, grown⟩ := appended.grown
  intro position column there
  obtain ⟨_, _, next, _, _, here, grew⟩ := grown position column there
  obtain ⟨slot, value, at_slot, cell, present⟩ := reads position next here
  rw [appended.slots_eq] at at_slot
  refine ⟨slot, value, at_slot, ?_, present⟩
  cases slot with
  | none => exact cell
  | some text => exact (grew.read_eq text).symm.trans cell

end RowAppended

/-! ## Any number of rows -/

/-- What rows offered one after the other leave behind, those that are refused among them. -/
def offer (frame : Frame) (rows : List (List String)) : Frame :=
  rows.foldl (fun frame texts => (appendRow texts frame).2) frame

/-- The rows that are taken of those offered. -/
def taken (frame : Frame) : List (List String) → List (List String)
  | [] => []
  | texts :: rows =>
    match appendRow texts frame with
    | (.ok (), next) => texts :: next.taken rows
    | (.error _, next) => next.taken rows

/-- The identity that a row gets so many rows behind those of a table, if the table has a column that
    names its rows. -/
def NamesRow (frame : Frame) (offset : Nat) (id : Identity) : Prop :=
  ∀ index, frame.index? = some index → ∃ first, index.nextId = .ok first ∧
    id.val = first.val + offset

/-- A table with rows behind those of another. -/
structure Extends (before : Frame) (rows : List (List String)) (after : Frame) : Prop where
  consistent : after.isConsistent = true
  width_eq : after.width = before.width
  rows_eq : after.rows = before.rows + rows.length
  keeps : ∀ shownAsText row values, before.row shownAsText row = .ok values →
    after.row shownAsText row = .ok values
  shows : ∀ (offset : Nat) (texts : List String), rows[offset]? = some texts →
    ∃ id values, before.NamesRow offset id ∧
      after.row true (before.rows + offset) = .ok values ∧ before.RowReads texts id values

/-- Refused rows leave no trace: the table is the one that only the others make. -/
theorem appendRows_taken (frame : Frame) (offers : List (List String)) :
    frame.appendRows (frame.taken offers) = .ok (frame.offer offers) := by
  induction offers generalizing frame with
  | nil => rfl
  | cons texts offers inductionHypothesis =>
    rcases appendRow_cases texts frame with ⟨next, accepted, _⟩ | ⟨cause, refused, _⟩
    · simp only [taken, accepted, appendRows, offer, List.foldl_cons]
      exact inductionHypothesis next
    · simp only [taken, refused, offer, List.foldl_cons]
      exact inductionHypothesis frame

theorem Built.offer (built : frame.Built) (offers : List (List String)) :
    (frame.offer offers).Built := by
  induction offers generalizing frame with
  | nil => exact built
  | cons texts offers inductionHypothesis => exact inductionHypothesis (built.appendRow texts)

theorem appendRows_cons (appended : frame.appendRows (texts :: rows) = .ok last) :
    ∃ next, frame.columns ≠ [] ∧ RowAppended texts frame next ∧ next.appendRows rows = .ok last := by
  simp only [appendRows] at appended
  rcases appendRow_cases texts frame with ⟨next, accepted, fits, row⟩ | ⟨cause, refused, _⟩
  · rw [accepted] at appended
    exact ⟨next, fits.columns, row, appended⟩
  · rw [refused] at appended
    contradiction

theorem coded_of_appendRows (appended : frame.appendRows rows = .ok last)
    (coded : ∀ column ∈ last.columns, column.Coded) : ∀ column ∈ frame.columns, column.Coded := by
  induction rows generalizing frame with
  | nil =>
    cases appended
    exact coded
  | cons texts rows inductionHypothesis =>
    obtain ⟨next, _, row, rest⟩ := appendRows_cons appended
    exact row.coded (inductionHypothesis rest)

theorem RowAppended.namesRow {offset : Nat} (appended : RowAppended texts before after)
    (names : after.NamesRow offset id) : before.NamesRow (offset + 1) id := by
  intro index named
  obtain ⟨first, next, named'⟩ := appended.index?_eq named
  obtain ⟨second, following, counted⟩ := names _ named'
  refine ⟨first, next, ?_⟩
  rw [counted, IndexColumn.nextId_push next following]
  omega

theorem extends_of_appendRows (consistent : frame.isConsistent = true)
    (appended : frame.appendRows rows = .ok last)
    (coded : ∀ column ∈ last.columns, column.Coded) : frame.Extends rows last := by
  -- The first row is appended to the table, the others to what it leaves.
  induction rows generalizing frame with
  | nil =>
    cases appended
    exact ⟨consistent, rfl, rfl, fun _ _ _ shown => shown, fun _ _ none => by contradiction⟩
  | cons texts rows inductionHypothesis =>
    obtain ⟨next, columns, row, rest⟩ := appendRows_cons appended
    have behind := inductionHypothesis (row.isConsistent consistent columns) rest
    have rows_eq := row.rows_eq consistent columns
    refine ⟨behind.consistent, behind.width_eq.trans row.width, ?_, ?_, ?_⟩
    · rw [behind.rows_eq, rows_eq, List.length_cons]
      omega
    · intro shownAsText place values shown
      exact behind.keeps _ _ _ (row.row_of_ok consistent columns shown)
    · intro offset others there
      cases offset with
      | zero =>
        obtain rfl : texts = others := Option.some.inj there
        obtain ⟨id, values, next_id, shown, reads⟩ :=
          row.row_new consistent columns (coded_of_appendRows rest coded)
        refine ⟨id, values, fun index named => ?_, behind.keeps _ _ _ shown, reads⟩
        simp only [nextId, named] at next_id
        exact ⟨id, next_id, rfl⟩
      | succ offset =>
        obtain ⟨id, values, names, shown, reads⟩ := behind.shows offset others there
        refine ⟨id, values, row.namesRow names, ?_, row.rowReads reads⟩
        rw [rows_eq] at shown
        rwa [Nat.add_assoc, Nat.add_comm 1] at shown

/-- A table refines an append-only list of rows.  Whatever rows are offered to a table whose columns
    are equally long, those that are refused leave no trace; the others stand behind the rows that
    were there, in the order in which they were offered, each with the values that its texts are read
    as and with the identity counted on from the first, and all rows that were there show what they
    showed, be it as codes or as texts. -/
theorem offers_append {frame : Frame} (built : frame.Built) (consistent : frame.isConsistent = true)
    (offers : List (List String))
    (coded : ∀ column ∈ (frame.offer offers).columns, column.Coded) :
    frame.appendRows (frame.taken offers) = .ok (frame.offer offers) ∧
    frame.Extends (frame.taken offers) (frame.offer offers) ∧
    (∀ shownAsText row, (∃ values, (frame.offer offers).row shownAsText row = .ok values) ↔
      row < frame.rows + (frame.taken offers).length) ∧
    (∀ shownAsText row values, (frame.offer offers).row shownAsText row = .ok values →
      values.length = (frame.offer offers).width) ∧
    ∀ shownAsText row, row < frame.rows →
      (frame.offer offers).row shownAsText row = frame.row shownAsText row := by
  have appended := appendRows_taken frame offers
  have extended := extends_of_appendRows consistent appended coded
  refine ⟨appended, extended, fun shownAsText row => ?_, fun _ _ _ => length_of_row,
    fun shownAsText row bound => ?_⟩
  · rw [← extended.rows_eq]
    exact (built.offer offers).row_ok_iff extended.consistent shownAsText row
  · obtain ⟨values, shown⟩ := (built.row_ok_iff consistent shownAsText row).mpr bound
    rw [shown, extended.keeps _ _ _ shown]

/-- A row that is named, with a number and a category. -/
def singleRow : Frame :=
  ((ofSize 1).add (.plain (.ofBuffer "count" ⟨.unsigned .w8, #[⟨3, by decide⟩]⟩))).add
    (.categorical (.ofTexts "name" ["a"]))

/-- The row between is refused; the last one shares its category with the first and gets the identity
    behind that of the row before. -/
theorem offers_append_between :
    singleRow.isConsistent = true ∧
      (∀ column ∈ (singleRow.offer [["5", "b"], ["x", "c"], ["7", "a"]]).columns, column.Coded) ∧
      (singleRow.offer [["5", "b"], ["x", "c"], ["7", "a"]]).rows = 3 ∧
      ∃ values, (singleRow.offer [["5", "b"], ["x", "c"], ["7", "a"]]).row true 2 = .ok values ∧
        values[0]? = some (.ofIdentity ⟨2, by decide⟩) ∧ values[2]? = some (.text "a") := by
  have consistent : singleRow.isConsistent = true := by decide +kernel
  have coded : ∀ column ∈ (singleRow.offer [["5", "b"], ["x", "c"], ["7", "a"]]).columns,
      column.Coded := by decide +kernel
  have built : singleRow.Built :=
    ((Built.ofSize 1).add (.fresh (.plain _ _))).add (.fresh (.categorical _ (.ofTexts ["a"])))
  have taken : singleRow.taken [["5", "b"], ["x", "c"], ["7", "a"]] = [["5", "b"], ["7", "a"]] := by
    decide +kernel
  obtain ⟨_, extended, _⟩ := offers_append built consistent _ coded
  have single : singleRow.rows = 1 := by decide +kernel
  rw [taken] at extended
  obtain ⟨id, values, names, shown, reads⟩ := extended.shows 1 ["7", "a"] rfl
  obtain ⟨first, next, counted⟩ := names _ rfl
  have rows_eq := extended.rows_eq
  rw [single] at shown rows_eq
  refine ⟨consistent, coded, rows_eq, values, shown, ?_, ?_⟩
  · obtain ⟨slot, value, at_slot, cell, present⟩ := reads 0 _ rfl
    cases at_slot
    cases next
    rw [present, cell, ← show id = ⟨2, by decide⟩ from Fin.ext counted]
  · obtain ⟨slot, value, at_slot, cell, present⟩ := reads 2 _ rfl
    cases at_slot
    cases cell
    exact present

end Frame

end LinkedTables
