import LinkedTables.Proofs.IndexUpdate
import LinkedTables.Proofs.RowAppend

/-! # The index columns of a frame

A frame may hold any number of index columns, and the first of them names its rows.  Appending a row
gives that one the next identity; bringing it in line with the data changes it and no other
column. -/

namespace LinkedTables

namespace Column

theorem index?_eq_none_iff {column : Column} : column.index? = none ↔ column.isIndex = false := by
  cases column <;> simp [index?, isIndex]

@[simp] theorem isSome_index? (column : Column) : column.index?.isSome = column.isIndex := by
  cases column <;> rfl

theorem Grown.isIndex_eq {value : Value} {before after : Column}
    (grown : Grown value before after) : after.isIndex = before.isIndex := by
  cases grown <;> rfl

theorem Grown.index_eq {index : IndexColumn} {id : Identity} {after : Column}
    (grown : Grown (.ofIdentity id) (.index index) after) : after = .index (index.push id) := by
  generalize value_eq : Value.ofIdentity id = value at grown
  cases grown with
  | index header ids greatest other =>
    have same : id = other := by simpa [Value.ofIdentity] using value_eq
    rw [same]
    rfl

end Column

namespace Frame

variable {frame before after : Frame} {index : IndexColumn} {column : Column} {position : Nat}
  {texts : List String}

/-- The index columns of a frame, in order. -/
def indexes (frame : Frame) : List IndexColumn :=
  frame.columns.filterMap Column.index?

/-- The columns other than index columns. -/
def dataColumns (frame : Frame) : List Column :=
  frame.columns.filter (!·.isIndex)

@[simp] theorem head?_indexes (frame : Frame) : frame.indexes.head? = frame.index? :=
  List.head?_filterMap

theorem index?_of_indexes_eq {others : List IndexColumn}
    (indexes_eq : frame.indexes = index :: others) : frame.index? = some index := by
  rw [← head?_indexes, indexes_eq, List.head?_cons]

theorem indexes_eq_nil_iff :
    frame.indexes = [] ↔ ∀ column ∈ frame.columns, column.isIndex = false := by
  simp only [indexes, List.filterMap_eq_nil_iff, Column.index?_eq_none_iff]

theorem index?_eq_none_iff : frame.index? = none ↔ frame.indexes = [] := by
  rw [← head?_indexes, List.head?_eq_none_iff]

/-- The column that names the rows stands behind columns of data only. -/
theorem exists_first (named : frame.index? = some index) :
    ∃ before rest, frame.columns = before ++ .index index :: rest ∧
      ∀ column ∈ before, column.isIndex = false := by
  obtain ⟨before, column, rest, split, found, first⟩ := List.findSome?_eq_some_iff.mp named
  cases column with
  | index other =>
    obtain rfl : other = index := Option.some.inj found
    exact ⟨before, rest, split, fun column member =>
      Column.index?_eq_none_iff.mp (first column member)⟩
  | plain _ | categorical _ => contradiction

theorem exists_indexPosition? (named : frame.index? = some index) :
    ∃ position, frame.indexPosition? = some position := by
  obtain ⟨before, rest, split, _⟩ := exists_first named
  rw [← Option.isSome_iff_exists, indexPosition?, List.findIdx?_isSome]
  exact List.any_eq_true.mpr ⟨.index index, by simp [split], rfl⟩

theorem indexes_of_first {before rest : List Column}
    (first : ∀ column ∈ before, column.isIndex = false) (index : IndexColumn) :
    (⟨before ++ .index index :: rest⟩ : Frame).indexes = index :: (⟨rest⟩ : Frame).indexes := by
  have none : (⟨before⟩ : Frame).indexes = [] := indexes_eq_nil_iff.mpr first
  rw [indexes] at none
  simp only [indexes, List.filterMap_append, none, List.nil_append]
  rfl

/-! ## Bringing the index column in line -/

/-- What bringing the index column in line with the data comes to: one is put in front if there is
    none, without data there is nothing to follow, and else the first one is fitted. -/
inductive Updated (frame : Frame) : Except TableError Unit × Frame → Prop where
  | inserted (unnamed : frame.indexes = []) :
      Updated frame (.ok (), ⟨.index (.sequential indexHeader frame.rows) :: frame.columns⟩)
  | bare {index : IndexColumn} (named : frame.index? = some index) (bare : frame.dataColumns = []) :
      Updated frame (.ok (), frame)
  | fitted {before rest : List Column} {index : IndexColumn}
      (split : frame.columns = before ++ .index index :: rest)
      (first : ∀ column ∈ before, column.isIndex = false) (data : frame.dataColumns ≠ []) :
      Updated frame ((fitIndex (longest frame.dataColumns) index).1,
        ⟨before ++ .index (fitIndex (longest frame.dataColumns) index).2 :: rest⟩)

theorem fitFirstIndex_of_first {before rest : List Column} (rows : Nat) (index : IndexColumn)
    (first : ∀ column ∈ before, column.isIndex = false) :
    fitFirstIndex rows (before ++ .index index :: rest) =
      ((fitIndex rows index).1, before ++ .index (fitIndex rows index).2 :: rest) := by
  -- The search passes over every column in front of the first index column.
  induction before with
  | nil => rfl
  | cons column before inductionHypothesis =>
    have behind := inductionHypothesis fun other member =>
      first other (List.mem_cons_of_mem _ member)
    have here := first column List.mem_cons_self
    cases column with
    | index => contradiction
    | plain | categorical => simp only [List.cons_append, fitFirstIndex, behind]

theorem updateIndex_updated (frame : Frame) : frame.Updated frame.updateIndex := by
  cases named : frame.index? with
  | none =>
    have unnamed := index?_eq_none_iff.mp named
    rw [updateIndex_of_no_index (indexes_eq_nil_iff.mp unnamed)]
    exact .inserted unnamed
  | some index =>
    obtain ⟨before, rest, split, first⟩ := exists_first named
    have some : frame.columns.any Column.isIndex = true :=
      List.any_eq_true.mpr ⟨.index index, by simp [split], rfl⟩
    by_cases bare : frame.dataColumns = []
    · have outcome : frame.updateIndex = (.ok (), frame) := by
        have empty : (frame.columns.filter (!·.isIndex)).isEmpty = true := by
          rw [← dataColumns, bare]
          rfl
        simp only [updateIndex, some, empty, if_true]
      rw [outcome]
      exact .bare named bare
    · have outcome : frame.updateIndex =
          ((fitIndex (longest frame.dataColumns) index).1,
            ⟨before ++ .index (fitIndex (longest frame.dataColumns) index).2 :: rest⟩) := by
        have present : (frame.columns.filter (!·.isIndex)).isEmpty = false := by
          simpa [dataColumns] using bare
        simp only [updateIndex, some, present, if_true, Bool.false_eq_true, if_false]
        rw [split, fitFirstIndex_of_first _ _ first, ← split]
        rfl
      rw [outcome]
      exact .fitted split first bare

/-! ## Appending a row -/

namespace RowAppended

theorem map_isIndex (appended : RowAppended texts before after) :
    after.columns.map Column.isIndex = before.columns.map Column.isIndex :=
  appended.map_eq fun _ _ _ grew => grew.isIndex_eq

theorem length_indexes (appended : RowAppended texts before after) :
    after.indexes.length = before.indexes.length := by
  have counts := congrArg (List.countP id) appended.map_isIndex
  simpa only [indexes, List.length_filterMap_eq_countP, Column.isSome_index?, List.countP_map,
    Function.id_comp] using counts

theorem indexPosition?_eq (appended : RowAppended texts before after) :
    after.indexPosition? = before.indexPosition? := by
  have positions := congrArg (List.findIdx? id) appended.map_isIndex
  rwa [List.findIdx?_map, List.findIdx?_map, Function.id_comp] at positions

theorem index?_eq (appended : RowAppended texts before after) (named : before.index? = some index) :
    ∃ id, index.nextId = .ok id ∧ after.index? = some (index.push id) := by
  obtain ⟨position, designated⟩ := exists_indexPosition? named
  have designated' := appended.indexPosition?_eq.trans designated
  obtain ⟨index', there, named'⟩ := index?_of_indexPosition? designated
  obtain ⟨next, here, after_named⟩ := index?_of_indexPosition? designated'
  obtain rfl : index' = index := Option.some.inj (named'.symm.trans named)
  obtain ⟨id, slot, value, identity, at_slot, cell, grew⟩ := appended.at_position there here
  -- The slot of the column that names the rows holds no text, so the column grows by the identity.
  have empty : slot = none := by
    simp only [slots, designated, List.getElem?_insertIdx_self] at at_slot
    split at at_slot
    · exact (Option.some.inj at_slot).symm
    · contradiction
  subst empty
  obtain rfl : value = .ofIdentity id := cell
  have pushed : next = index'.push id := Column.index.inj grew.index_eq
  refine ⟨id, ?_, pushed ▸ after_named⟩
  simpa only [nextId, named] using identity

end RowAppended

end Frame

end LinkedTables
