import LinkedTables.Proofs.IndexLength

/-! # Bringing the index column in line

The column that names the rows keeps its first identities and, where the data has more rows, goes on
from the greatest of them.  Nothing else in the table changes.  The one thing that can go wrong is
that the identities run out, and then nothing changes at all. -/

namespace LinkedTables

/-! ## Identities for a number of rows -/

namespace Identity

variable {before after ids : List Identity} {rows number : Nat}

/-- The number behind all given identities: one above the greatest, and zero if there is none. -/
def Next (ids : List Identity) (number : Nat) : Prop :=
  ids = [] ∧ number = 0 ∨
    ∃ greatest ∈ ids, (∀ id ∈ ids, id ≤ greatest) ∧ number = greatest.val + 1

/-- Identities for a number of rows, made of those from before: the first of them, and if they are
    too few the consecutive numbers behind all of them. -/
def Fitted (rows : Nat) (before after : List Identity) : Prop :=
  ∃ next, Next before next ∧
    after.map (·.val) = (before.take rows).map (·.val) ++ List.range' next (rows - before.length)

theorem exists_next (ids : List Identity) : ∃ next, Next ids next := by
  cases ids with
  | nil => exact ⟨0, .inl ⟨rfl, rfl⟩⟩
  | cons id ids =>
    obtain ⟨greatest, found, _⟩ := le_greatest? (List.mem_cons_self (a := id) (l := ids))
    obtain ⟨held, most⟩ := greatest?_eq_some_iff.mp found
    exact ⟨_, .inr ⟨_, held, most, rfl⟩⟩

/-- Behind the greatest identity there is one number only. -/
theorem Next.eq_of_greatest {greatest : Identity} (next : Next ids number) (held : greatest ∈ ids)
    (most : ∀ id ∈ ids, id ≤ greatest) : number = greatest.val + 1 := by
  rcases next with ⟨rfl, _⟩ | ⟨other, held', most', rfl⟩
  · contradiction
  · rw [Fin.le_antisymm (most other held') (most' greatest held)]

theorem Fitted.reach {greatest : Identity} (fitted : Fitted rows before after)
    (held : greatest ∈ before) (most : ∀ id ∈ before, id ≤ greatest)
    (short : before.length < rows) :
    greatest.val + (rows - before.length) < Width.count .w64 := by
  obtain ⟨next, behind, values⟩ := fitted
  have next_eq := behind.eq_of_greatest held most
  have last : greatest.val + (rows - before.length) ∈ after.map (·.val) := by
    rw [values, List.mem_append, List.mem_range'_1]
    right
    omega
  obtain ⟨id, _, id_eq⟩ := List.mem_map.mp last
  rw [← id_eq]
  exact id.isLt

theorem fitted_take (short : rows ≤ before.length) : Fitted rows before (before.take rows) := by
  obtain ⟨next, next_eq⟩ := exists_next before
  refine ⟨next, next_eq, ?_⟩
  rw [Nat.sub_eq_zero_of_le short, List.range'_zero, List.append_nil]

end Identity

namespace IndexColumn

variable {index : IndexColumn} {rows : Nat} {start : Identity}

theorem Tracked.next_of_ok (tracked : index.Tracked) (next : index.nextId = .ok start) :
    Identity.Next index.ids.toList start.val := by
  cases found : index.greatest with
  | none =>
    -- A list with a member has a greatest one.
    have empty : index.ids.toList = [] := by
      cases ids : index.ids.toList with
      | nil => rfl
      | cons id rest =>
        have member : id ∈ index.ids.toList := by simp [ids]
        obtain ⟨greatest, found', _⟩ := Identity.le_greatest? member
        rw [Tracked, found, found'] at tracked
        contradiction
    simp only [nextId, found, Except.ok.injEq] at next
    subst next
    exact .inl ⟨empty, rfl⟩
  | some greatest =>
    rw [Tracked, found] at tracked
    obtain ⟨held, most⟩ := Identity.greatest?_eq_some_iff.mp tracked.symm
    simp only [nextId, found] at next
    split at next
    next room =>
      cases next
      exact .inr ⟨greatest, held, most, rfl⟩
    next => contradiction

theorem Tracked.next_of_error {cause : TableError} (tracked : index.Tracked)
    (next : index.nextId = .error cause) :
    Identity.Next index.ids.toList (Width.count .w64) := by
  obtain ⟨greatest, found, last, _⟩ := nextId_error_iff.mp next
  rw [Tracked, found] at tracked
  obtain ⟨held, most⟩ := Identity.greatest?_eq_some_iff.mp tracked.symm
  have limit : Width.count .w64 = greatest.val + 1 := by rw [last]; rfl
  exact .inr ⟨greatest, held, most, limit⟩

/-- What fitting an index column to a number of rows comes to. -/
inductive Fitting (rows : Nat) (index : IndexColumn) :
    Except TableError Unit × IndexColumn → Prop where
  | fitted {after : IndexColumn} (header : after.header = index.header)
      (ids : Identity.Fitted rows index.ids.toList after.ids.toList) :
      Fitting rows index (.ok (), after)
  | exhausted {next : Nat} (short : index.size < rows)
      (behind : Identity.Next index.ids.toList next)
      (reach : Width.count .w64 < next + (rows - index.size)) :
      Fitting rows index (.error (.identitiesExhausted index.header), index)

theorem fitting_extend (tracked : index.Tracked) (short : index.size ≤ rows) :
    Fitting rows index (index.extend (rows - index.size)) := by
  have whole : index.ids.toList.take rows = index.ids.toList :=
    List.take_of_length_le (by rwa [← size_eq_length])
  simp only [extend]
  split
  next none =>
    -- Nothing is asked for, so all rows are named already.
    have few : rows ≤ index.ids.toList.length := by
      rw [← size_eq_length]
      omega
    have same := Identity.fitted_take few
    rw [whole] at same
    exact .fitted rfl same
  next asked =>
    split
    next cause next =>
      obtain ⟨_, _, _, rfl⟩ := nextId_error_iff.mp next
      exact .exhausted (by omega) (tracked.next_of_error next) (by omega)
    next start next =>
      have behind := tracked.next_of_ok next
      split
      next fits =>
        refine .fitted rfl ⟨start.val, behind, ?_⟩
        have room : min (rows - index.size) (Width.count .w64 - start.val) = rows - index.size := by
          omega
        rw [Array.toList_appendList, List.map_append, consecutive_values, room, whole,
          size_eq_length]
      next => exact .exhausted (by omega) behind (by omega)

theorem fitting_fitIndex (rows : Nat) (tracked : index.Tracked) :
    Fitting rows index (Frame.fitIndex rows index) := by
  simp only [Frame.fitIndex]
  split
  next longer =>
    rw [truncate, if_pos longer]
    refine .fitted rfl ?_
    have few : rows ≤ index.ids.toList.length := by
      rw [← size_eq_length]
      omega
    have kept := Identity.fitted_take few
    simpa using kept
  next shorter => exact fitting_extend tracked (Nat.not_lt.mp shorter)

@[simp] theorem fitIndex_size (index : IndexColumn) :
    Frame.fitIndex index.size index = (.ok (), index) := by
  rw [Frame.fitIndex, if_neg (Nat.lt_irrefl _), Nat.sub_self]
  rfl

end IndexColumn

namespace Frame

variable {frame after : Frame} {index : IndexColumn}

/-- A frame whose index column has been brought in line with the data of another, which is otherwise
    the same: it has the numbers of the rows where there was none, is left alone where there is no
    data, and is fitted to the rows of the data in its place among the other columns. -/
inductive InLine (frame : Frame) : Frame → Prop where
  | inserted {index : IndexColumn} (unnamed : ∀ column ∈ frame.columns, column.isIndex = false)
      (header : index.header = indexHeader)
      (ids : index.ids.toList.map (·.val) = List.range frame.rows) :
      InLine frame ⟨.index index :: frame.columns⟩
  | bare (named : frame.index? ≠ none) (bare : ∀ column ∈ frame.columns, column.isIndex = true) :
      InLine frame frame
  | fitted {before rest : List Column} {index index' : IndexColumn}
      (split : frame.columns = before ++ .index index :: rest)
      (first : ∀ column ∈ before, column.isIndex = false)
      (data : ∃ column ∈ frame.columns, column.isIndex = false)
      (header : index'.header = index.header)
      (ids : Identity.Fitted (longest frame.dataColumns) index.ids.toList index'.ids.toList) :
      InLine frame ⟨before ++ .index index' :: rest⟩

/-- A frame whose index column has the rows of the data, or no data to follow, stays as it is. -/
theorem updateIndex_of_named (named : frame.index? = some index)
    (line : frame.dataColumns = [] ∨ index.size = longest frame.dataColumns) :
    frame.updateIndex = (.ok (), frame) := by
  have outcome := updateIndex_updated frame
  generalize frame.updateIndex = result at outcome ⊢
  cases outcome with
  | inserted unnamed =>
    rw [index?_eq_none_iff.mpr unnamed] at named
    contradiction
  | bare => rfl
  | @fitted before rest index' split first data =>
    obtain ⟨columns⟩ := frame
    subst split
    rw [index?_of_indexes_eq (indexes_of_first first index'), Option.some.injEq] at named
    subst named
    rcases line with none | line
    · contradiction
    · rw [← line, IndexColumn.fitIndex_size]

theorem dataColumns_ne_nil_iff :
    frame.dataColumns ≠ [] ↔ ∃ column ∈ frame.columns, column.isIndex = false := by
  simp [dataColumns, List.filter_eq_nil_iff]

theorem longest_dataColumns_le_rows (frame : Frame) : longest frame.dataColumns ≤ frame.rows :=
  longest_le_iff.mpr fun _ member => size_le_longest (List.mem_of_mem_filter member)

/-- The identities run out: the column that names the rows holds some, it has fewer rows than the
    data, and as many more behind the greatest one would pass the last identity there is. -/
def RunsOut (frame : Frame) : Prop :=
  ∃ index greatest, frame.index? = some index ∧ greatest ∈ index.ids.toList ∧
    (∀ id ∈ index.ids.toList, id ≤ greatest) ∧ index.size < longest frame.dataColumns ∧
    Width.count .w64 ≤ greatest.val + (longest frame.dataColumns - index.size)

/-- What bringing the index column in line comes to in full: a frame that is in line, or the frame as
    it was where the identities run out. -/
theorem updateIndex_cases (built : ∀ index ∈ frame.indexes, index.Built)
    (counted : frame.rows ≤ Width.count .w64) :
    (∃ after, frame.updateIndex = (.ok (), after) ∧ frame.InLine after ∧ ¬ frame.RunsOut) ∨
      (∃ header, frame.updateIndex = (.error (.identitiesExhausted header), frame) ∧
        frame.RunsOut) := by
  have outcome := updateIndex_updated frame
  generalize frame.updateIndex = result at outcome ⊢
  cases outcome with
  | inserted unnamed =>
    have none := index?_eq_none_iff.mpr unnamed
    refine .inl ⟨_, rfl, .inserted (indexes_eq_nil_iff.mp unnamed) rfl ?_, ?_⟩
    · rw [IndexColumn.sequential_values, Nat.min_eq_left counted]
    · rintro ⟨index, _, named, _⟩
      rw [none] at named
      contradiction
  | @bare index named bare =>
    refine .inl ⟨_, rfl, .bare (by simp [named]) ?_, ?_⟩
    · simpa [dataColumns, List.filter_eq_nil_iff] using bare
    · rintro ⟨_, _, _, _, _, short, _⟩
      rw [bare] at short
      exact Nat.not_lt_zero _ short
  | @fitted before rest index split first data =>
    have indexes_eq : frame.indexes = index :: (⟨rest⟩ : Frame).indexes := by
      obtain ⟨columns⟩ := frame
      subst split
      exact indexes_of_first first index
    have named := index?_of_indexes_eq indexes_eq
    have tracked := (built index (by simp [indexes_eq])).tracked
    have fitting := IndexColumn.fitting_fitIndex (longest frame.dataColumns) tracked
    generalize fitIndex (longest frame.dataColumns) index = result at fitting ⊢
    cases fitting with
    | fitted header ids =>
      refine .inl ⟨_, rfl, .fitted split first (dataColumns_ne_nil_iff.mp data) header ids, ?_⟩
      rintro ⟨other, greatest, named', held, most, short, beyond⟩
      rw [named, Option.some.injEq] at named'
      subst named'
      have reach := ids.reach held most (by rwa [← IndexColumn.size_eq_length])
      rw [← IndexColumn.size_eq_length] at reach
      omega
    | exhausted short behind reach =>
      refine .inr ⟨index.header, ?_, ?_⟩
      · obtain ⟨columns⟩ := frame
        subst split
        rfl
      · have most := longest_dataColumns_le_rows frame
        -- An empty column has identities for as many rows as there are.
        rcases behind with ⟨_, rfl⟩ | ⟨greatest, held, most, rfl⟩
        · omega
        · exact ⟨index, greatest, named, held, most, short, by omega⟩

/-- Bringing the index column in line, on every frame.  Where it succeeds, the frame is in line and
    otherwise the same, and doing it again changes nothing.  It fails exactly if the identities run
    out, and then the frame is as it was. -/
theorem updateIndex_effect (built : ∀ index ∈ frame.indexes, index.Built)
    (counted : frame.rows ≤ Width.count .w64) :
    (∀ after, frame.updateIndex = (.ok (), after) →
      frame.InLine after ∧ after.updateIndex = (.ok (), after)) ∧
    (∀ cause after, frame.updateIndex = (.error cause, after) → after = frame) ∧
    ((∃ cause, frame.updateIndex.1 = .error cause) ↔ frame.RunsOut) := by
  have outcome := updateIndex_updated frame
  refine ⟨fun after updated => ⟨?_, ?_⟩, fun cause after refused => ?_, ?_⟩
  · rcases updateIndex_cases built counted with ⟨after', updated', line, _⟩ | ⟨_, refused, _⟩
    · rw [updated', Prod.mk.injEq] at updated
      exact updated.2 ▸ line
    · rw [refused] at updated
      cases updated
  · rw [updated] at outcome
    obtain ⟨index, indexes_eq, size, data⟩ := outcome.index_size counted
    -- The index column that is left has as many rows as the data, so there is nothing to fit.
    refine updateIndex_of_named (index?_of_indexes_eq indexes_eq) ?_
    rw [data, size]
    by_cases bare : frame.dataColumns = []
    · exact .inl bare
    · exact .inr (namedRows_of_data bare)
  · rcases updateIndex_cases built counted with ⟨_, updated, _⟩ | ⟨_, refused', _⟩
    · rw [updated] at refused
      cases refused
    · rw [refused', Prod.mk.injEq] at refused
      exact refused.2.symm
  · rcases updateIndex_cases built counted with ⟨_, updated, _, room⟩ | ⟨_, refused, out⟩
    · simp [updated, room]
    · simp [refused, out]

def partlyNamed : Frame :=
  ⟨[.plain (.fresh "found" .boolean 4),
    .index (.ofIds indexHeader [⟨9, by decide⟩, ⟨4, by decide⟩]),
    .index (.ofIds "parent" [⟨1, by decide⟩])]⟩

/-- The new identities follow the greatest one, which is not the last, and the second index column
    stays as it is. -/
theorem updateIndex_effect_partlyNamed :
    ∃ after : Frame, partlyNamed.updateIndex = (.ok (), after) ∧
      after.indexes.map (fun index => index.ids.toList.map (·.val)) = [[9, 4, 10, 11], [1]] ∧
      partlyNamed.InLine after ∧ after.updateIndex = (.ok (), after) := by
  have built : ∀ index ∈ partlyNamed.indexes, index.Built := by
    intro index member
    rcases List.mem_pair.mp member with rfl | rfl
    · exact .ofIds _ _
    · exact .ofIds _ _
  have counted : partlyNamed.rows ≤ Width.count .w64 := by decide
  have updated : partlyNamed.updateIndex = (.ok (), partlyNamed.updateIndex.2) := rfl
  obtain ⟨line, again⟩ := (updateIndex_effect built counted).1 _ updated
  exact ⟨_, updated, rfl, line, again⟩

end Frame

end LinkedTables
