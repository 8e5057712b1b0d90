import LinkedTables.Proofs.GreatestIdentity
import LinkedTables.Proofs.IndexColumns
import Mathlib.Logic.Relation

/-! # How many rows are named

A table has as many rows as its longest column has, whatever kind of column that is; the column that
names the rows is brought in line with the columns of data alone.  So all rows are named unless
another index column is the longest. -/

namespace LinkedTables

/-! ## The longest column -/

namespace Frame

variable {frame : Frame} {column : Column} {columns : List Column}

theorem foldl_le_iff {start bound : Nat} :
    columns.foldl (fun most column => Nat.max most column.size) start ≤ bound ↔
      start ≤ bound ∧ ∀ column ∈ columns, column.size ≤ bound := by
  induction columns generalizing start with
  | nil => simp
  | cons column columns inductionHypothesis =>
    have most : Nat.max start column.size ≤ bound ↔ start ≤ bound ∧ column.size ≤ bound :=
      Nat.max_le
    rw [List.foldl_cons, inductionHypothesis, most, List.forall_mem_cons, and_assoc]

theorem longest_le_iff {bound : Nat} :
    longest columns ≤ bound ↔ ∀ column ∈ columns, column.size ≤ bound := by
  rw [longest, foldl_le_iff, and_iff_right (Nat.zero_le bound)]

theorem size_le_longest (member : column ∈ columns) : column.size ≤ longest columns :=
  longest_le_iff.mp (Nat.le_refl _) column member

/-- A column has all rows of its frame if no column is longer. -/
theorem size_eq_rows_iff (member : column ∈ frame.columns) :
    column.size = frame.rows ↔ ∀ other ∈ frame.columns, other.size ≤ column.size := by
  rw [rows, ← longest_le_iff]
  constructor
  · intro all
    exact Nat.le_of_eq all.symm
  · intro most
    exact Nat.le_antisymm (size_le_longest member) most

end Frame

/-! ## How long the index column becomes -/

namespace IndexColumn

theorem size_sequential (header : String) {rows : Nat} (counted : rows ≤ Width.count .w64) :
    (sequential header rows).size = rows := by
  have values := congrArg List.length (sequential_values header rows)
  rw [List.length_map, List.length_range, Nat.min_eq_left counted] at values
  exact values

theorem size_eq_length (index : IndexColumn) : index.size = index.ids.toList.length :=
  Array.length_toList.symm

theorem size_fitIndex {rows : Nat} {index : IndexColumn}
    (fitted : (Frame.fitIndex rows index).1 = .ok ()) :
    (Frame.fitIndex rows index).2.size = rows := by
  simp only [Frame.fitIndex] at fitted ⊢
  split at fitted
  next longer =>
    rw [if_pos longer, truncate, if_pos longer]
    simp only [size, Array.take_eq_extract, Array.size_extract] at longer ⊢
    omega
  next shorter =>
    rw [if_neg shorter]
    have outcome := extend_extended (rows - index.size) index
    generalize index.extend (rows - index.size) = result at outcome fitted ⊢
    cases outcome with
    | idle none =>
      show index.size = rows
      omega
    | refused => contradiction
    | @extended start last next asked reach =>
      have bound := last.isLt
      have fits : start.val + (rows - index.size) ≤ Width.count .w64 := by omega
      have fresh := length_consecutive fits
      rw [size_eq_length, Array.toList_appendList, List.length_append, fresh, ← size_eq_length]
      omega

end IndexColumn

namespace Frame

variable {frame before after later : Frame} {index : IndexColumn}

/-- How many rows the index column names once it is in line with the data: as many as the longest
    column of data has, and without data as many as before. -/
def namedRows (frame : Frame) : Nat :=
  match frame.dataColumns, frame.index? with
  | [], some index => index.size
  | columns, _ => longest columns

theorem namedRows_of_data (data : frame.dataColumns ≠ []) :
    frame.namedRows = longest frame.dataColumns := by
  simp only [namedRows]
  split
  next bare _ => contradiction
  next => rfl

theorem namedRows_of_bare (named : frame.index? = some index) (bare : frame.dataColumns = []) :
    frame.namedRows = index.size := by
  simp only [namedRows, named, bare]

theorem namedRows_of_unnamed (unnamed : frame.indexes = []) : frame.namedRows = frame.rows := by
  have whole : frame.dataColumns = frame.columns :=
    List.filter_eq_self.mpr fun column member => by
      simp [indexes_eq_nil_iff.mp unnamed column member]
  simp only [namedRows, index?_eq_none_iff.mpr unnamed, whole, rows]
  split
  next none => contradiction
  next => rfl

theorem longest_data_le (frame : Frame) : longest frame.dataColumns ≤ frame.namedRows := by
  simp only [namedRows]
  split
  next bare _ => exact bare ▸ Nat.zero_le _
  next => exact Nat.le_refl _

/-- What bringing the index column in line leaves: it comes first among the index columns and has
    the rows to name; the other columns are the same. -/
theorem Updated.index_size (updated : frame.Updated (.ok (), after))
    (counted : frame.rows ≤ Width.count .w64) :
    ∃ index, after.indexes = index :: frame.indexes.tail ∧ index.size = frame.namedRows ∧
      after.dataColumns = frame.dataColumns := by
  generalize outcome : (Except.ok (), after) = result at updated
  -- The first index column is new, stays as it is for want of data, or is fitted to the data.
  cases updated with
  | inserted unnamed =>
    obtain ⟨_, rfl⟩ := Prod.mk.inj outcome
    refine ⟨.sequential indexHeader frame.rows, ?_, ?_, rfl⟩
    · rw [unnamed]
      exact congrArg (List.cons _) unnamed
    · rw [IndexColumn.size_sequential _ counted, namedRows_of_unnamed unnamed]
  | @bare index named bare =>
    obtain ⟨_, rfl⟩ := Prod.mk.inj outcome
    refine ⟨index, ?_, (namedRows_of_bare named bare).symm, rfl⟩
    rw [← head?_indexes] at named
    exact (List.cons_head?_tail named).symm
  | @fitted before rest index split first data =>
    obtain ⟨fitted, rfl⟩ := Prod.mk.inj outcome
    have behind : frame.indexes.tail = (⟨rest⟩ : Frame).indexes := by
      obtain ⟨columns⟩ := frame
      subst split
      rw [indexes_of_first first, List.tail_cons]
    refine ⟨(fitIndex (longest frame.dataColumns) index).2, ?_, ?_, ?_⟩
    · rw [indexes_of_first first, behind]
    · rw [IndexColumn.size_fitIndex fitted.symm, namedRows_of_data data]
    · simp only [dataColumns, split, List.filter_append]
      rfl

/-! ## Whether all rows are named -/

/-- A column that names at least the rows of the data names all rows exactly if no other index
    column is longer. -/
theorem index_size_iff {others : List IndexColumn} (indexes_eq : frame.indexes = index :: others)
    (data : longest frame.dataColumns ≤ index.size) :
    index.size = frame.rows ↔ ∀ other ∈ others, other.size ≤ index.size := by
  have listed : ∀ other, other ∈ index :: others ↔ Column.index other ∈ frame.columns := by
    intro other
    rw [← indexes_eq, indexes, List.mem_filterMap]
    constructor
    · rintro ⟨column, member, found⟩
      cases column with
      | index column => exact Option.some.inj found ▸ member
      | plain | categorical => contradiction
    · intro member
      exact ⟨_, member, rfl⟩
  have named : Column.index index ∈ frame.columns := (listed index).mp List.mem_cons_self
  refine (size_eq_rows_iff named).trans ⟨?_, ?_⟩
  · intro longest other member
    exact longest _ ((listed other).mp (List.mem_cons_of_mem _ member))
  · intro shorter column member
    cases column with
    | index other =>
      rcases List.mem_cons.mp ((listed other).mpr member) with rfl | behind
      · exact Nat.le_refl _
      · exact shorter other behind
    | plain | categorical =>
      exact longest_le_iff.mp data _ (List.mem_filter.mpr ⟨member, rfl⟩)

/-- A row is appended. -/
def AppendsRow (before after : Frame) : Prop :=
  ∃ texts, appendRow texts before = (.ok (), after)

theorem names_all_iff (named : frame.index? = some index) :
    index.size = frame.rows ↔ ∀ size ∈ frame.columns.map Column.size, size ≤ index.size := by
  obtain ⟨before, rest, split, _⟩ := exists_first named
  have member : Column.index index ∈ frame.columns := by simp [split]
  rw [List.forall_mem_map]
  exact size_eq_rows_iff member

theorem AppendsRow.names_all_iff (appends : before.AppendsRow after)
    (named : before.index? = some index) :
    ∃ index', after.index? = some index' ∧
      (index'.size = after.rows ↔ index.size = before.rows) := by
  obtain ⟨texts, accepted⟩ := appends
  have appended := rowAppended_of_ok accepted
  obtain ⟨id, _, named'⟩ := appended.index?_eq named
  have pushed : (index.push id).size = index.size + 1 := Array.size_push ..
  refine ⟨index.push id, named', ?_⟩
  rw [Frame.names_all_iff named', Frame.names_all_iff named, appended.sizes, pushed]
  simp only [List.forall_mem_map, Nat.add_le_add_iff_right]

/-- When the index column has been brought in line with the data, and after any rows appended since,
    all rows are named exactly if no other index column has more rows than the first was given to
    name; so they are if there is no other. -/
theorem index_size_eq_rows_iff (updated : frame.updateIndex = (.ok (), after))
    (counted : frame.rows ≤ Width.count .w64)
    (appended : Relation.ReflTransGen AppendsRow after later) :
    ∃ index, later.index? = some index ∧
      (index.size = later.rows ↔ ∀ other ∈ frame.indexes.tail, other.size ≤ frame.namedRows) := by
  -- By the rows appended: each of them lengthens all columns alike.
  induction appended with
  | refl =>
    have outcome := updateIndex_updated frame
    rw [updated] at outcome
    obtain ⟨index, indexes_eq, size, data⟩ := outcome.index_size counted
    have least : longest after.dataColumns ≤ index.size := by
      rw [size, data]
      exact longest_data_le frame
    refine ⟨index, index?_of_indexes_eq indexes_eq, ?_⟩
    rw [index_size_iff indexes_eq least, size]
  | tail _ appends inductionHypothesis =>
    obtain ⟨index, named, all⟩ := inductionHypothesis
    obtain ⟨index', named', same⟩ := appends.names_all_iff named
    exact ⟨index', named', same.trans all⟩

def shortNamed : Frame :=
  ⟨[.plain (.fresh "found" .boolean 2), .index (.ofIds indexHeader [⟨5, by decide⟩])]⟩

/-- Both rows are named, and so is a third. -/
theorem index_size_eq_rows_iff_third :
    ∃ after later, shortNamed.updateIndex = (.ok (), after) ∧ after.AppendsRow later ∧
      ∃ index, later.index? = some index ∧ index.size = 3 ∧ later.rows = 3 := by
  have updated : shortNamed.updateIndex = (.ok (), shortNamed.updateIndex.2) := rfl
  have counted : shortNamed.rows ≤ Width.count .w64 := by decide
  have appends : shortNamed.updateIndex.2.AppendsRow
      (appendRow ["true"] shortNamed.updateIndex.2).2 := ⟨["true"], rfl⟩
  obtain ⟨index, named, all⟩ := index_size_eq_rows_iff updated counted (.single appends)
  have three : (appendRow ["true"] shortNamed.updateIndex.2).2.rows = 3 := by decide +kernel
  refine ⟨_, _, updated, appends, index, named, ?_, three⟩
  rw [← three]
  exact all.mpr (by decide)

/-- A second index column is no column of data to the first, but has rows as any column has. -/
theorem updateIndex_leaves_rows_unnamed :
    ∃ after index,
      (((empty.add (.index (.ofIds indexHeader [⟨0, by decide⟩]))).add
        (.index (.ofIds "parent" [⟨0, by decide⟩, ⟨1, by decide⟩, ⟨2, by decide⟩]))).add
        (.plain (.fresh "found" .boolean 1))).updateIndex = (.ok (), after) ∧
      after.index? = some index ∧ index.size = 1 ∧ after.rows = 3 := by
  refine ⟨_, _, rfl, rfl, rfl, rfl⟩

end Frame

end LinkedTables
