import LinkedTables.Brushing.Matching
import LinkedTables.Proofs.FirstRefusal
import Mathlib.Data.List.Nodup

/-! # Which rows match which identities

The identities at a set of rows are those that the index column holds there, the rows of a set of
identities are the first rows that hold one of them, and the remaining rows are those whose
identity is not filtered out.  Each of these is said here row by row; the loops that compute them
are not looked at again. -/

namespace LinkedTables

/-- No member of a set is listed twice. -/
theorem Ascending.nodup {bound : Nat} (s : Ascending bound) : s.toList.Nodup :=
  s.ascending.imp Fin.ne_of_lt

theorem Ascending.ext {bound : Nat} {s t : Ascending bound} (same : ∀ a, a ∈ s ↔ a ∈ t) : s = t := by
  have perm : s.toList.Perm t.toList := (List.perm_ext_iff_of_nodup s.nodup t.nodup).mpr same
  obtain ⟨members, ascending⟩ := s
  obtain ⟨members', ascending'⟩ := t
  have equal : members = members' := by
    apply perm.eq_of_pairwise _ ascending ascending'
    intro a b _ _ lower higher
    exact absurd lower (Fin.not_lt.mpr (Fin.le_of_lt higher))
  subst equal
  rfl

theorem Row.ofPlace?_eq_some_iff {place : Nat} {row : Row} :
    Row.ofPlace? place = some row ↔ row.val = place := by
  simp only [Row.ofPlace?]
  split
  next bound =>
    rw [Option.some.injEq]
    constructor
    · rintro rfl
      rfl
    · intro value
      exact Fin.ext value.symm
  next bound =>
    constructor
    · intro impossible
      contradiction
    · intro value
      exact absurd (value ▸ row.isLt) bound

theorem Row.ofPlace?_add_eq_none {place offset : Nat} (beyond : Row.ofPlace? place = none) :
    Row.ofPlace? (place + offset) = none := by
  simp only [Row.ofPlace?] at beyond ⊢
  split at beyond
  · contradiction
  next bound =>
    rw [dif_neg]
    omega

/-! ## Counts -/

theorem MatchCounts.total {α : Type} (answers : List (Option α)) :
    (ofAnswers answers).matched + (ofAnswers answers).unmatched = answers.length := by
  induction answers with
  | nil => rfl
  | cons answer answers inductionHypothesis =>
    simp only [ofAnswers] at inductionHypothesis ⊢
    cases answer with
    | none => simp; omega
    | some a => simp; omega

namespace IndexColumn

variable {index : IndexColumn} {id : Identity} {row : Row}

/-! ## From rows to identities -/

theorem mem_idsOf {rows : RowSet} :
    id ∈ (index.idsOf rows).1 ↔ ∃ row ∈ rows, index.ids[row.val]? = some id := by
  simp only [idsOf, Ascending.mem_ofList, List.mem_filterMap, List.mem_map]
  constructor
  · rintro ⟨_, ⟨row, member, rfl⟩, held⟩
    exact ⟨row, member, held⟩
  · rintro ⟨row, member, held⟩
    exact ⟨_, ⟨row, member, rfl⟩, held⟩

/-! ## From identities to rows -/

/-- A row is the first at which the column holds an identity. -/
structure FirstHolds (index : IndexColumn) (row : Row) (id : Identity) : Prop where
  held : index.ids[row.val]? = some id
  first : ∀ earlier < row.val, index.ids[earlier]? ≠ some id

/-- If no identity stands at two rows, every row is the first to hold its identity. -/
theorem firstHolds_iff (unique : index.ids.toList.Nodup) :
    index.FirstHolds row id ↔ index.ids[row.val]? = some id := by
  constructor
  · intro first
    exact first.held
  · intro held
    refine ⟨held, ?_⟩
    intro earlier before same
    have bound : earlier < index.ids.toList.length :=
      (Array.getElem?_eq_some_iff.mp same).1
    have equal : index.ids.toList[earlier]? = index.ids.toList[row.val]? := by
      rw [Array.getElem?_toList, Array.getElem?_toList, same, held]
    exact absurd ((List.getElem?_inj bound unique).mp equal) (Nat.ne_of_lt before)

end IndexColumn

namespace RowLookup

variable {index : IndexColumn} {id : Identity} {row : Row}

theorem lookup_enter (id : Identity) (lookup : RowLookup) (place : Nat) (ids : List Identity) :
    (lookup.enter place ids).firstRows.lookup id =
      (lookup.firstRows.lookup id).or
        ((ids.idxOf? id).bind fun offset => Row.ofPlace? (place + offset)) := by
  induction ids generalizing lookup place with
  | nil => simp [enter]
  | cons head rest inductionHypothesis =>
    rw [List.idxOf?_cons]
    cases numbered : Row.ofPlace? place with
    | none =>
      -- No row behind this place has a number either.
      have beyond : ∀ offset, Row.ofPlace? (place + offset) = none :=
        fun offset => Row.ofPlace?_add_eq_none numbered
      simp [enter, numbered, beyond]
    | some here =>
      have shifted : ((rest.idxOf? id).map (· + 1)).bind (fun offset => Row.ofPlace? (place + offset)) =
          (rest.idxOf? id).bind fun offset => Row.ofPlace? (place + 1 + offset) := by
        cases rest.idxOf? id with
        | none => rfl
        | some offset =>
          have same : place + (offset + 1) = place + 1 + offset := by omega
          simp [same]
      simp only [enter, numbered]
      by_cases same : head = id
      · subst same
        cases known : lookup.firstRows.lookup head with
        | some other => simp [inductionHypothesis, known]
        | none => simp [inductionHypothesis, numbered]
      · have different : id ≠ head := Ne.symm same
        cases known : lookup.firstRows.lookup head with
        | some other => simp [inductionHypothesis, same, shifted]
        | none => simp [inductionHypothesis, different, same, shifted]

theorem rowOf?_eq_some_iff : (ofIndex index).rowOf? id = some row ↔ index.FirstHolds row id := by
  have entered := lookup_enter id ⟨[], 0⟩ 0 index.ids.toList
  simp only [List.lookup_nil, Option.none_or, Nat.zero_add] at entered
  rw [rowOf?, ofIndex, entered, Option.bind_eq_some_iff]
  constructor
  · rintro ⟨place, found, numbered⟩
    rw [← Row.ofPlace?_eq_some_iff.mp numbered] at found
    obtain ⟨bound, held, first⟩ := List.idxOf?_eq_some_iff.mp found
    refine ⟨?_, ?_⟩
    · rw [← Array.getElem?_toList, List.getElem?_eq_getElem bound, held]
    · intro earlier before
      have inside : earlier < index.ids.toList.length := Nat.lt_trans before bound
      rw [← Array.getElem?_toList, List.getElem?_eq_getElem inside, ne_eq, Option.some.injEq]
      exact first earlier before
  · intro first
    have held := first.held
    rw [← Array.getElem?_toList, List.getElem?_eq_some_iff] at held
    obtain ⟨bound, held⟩ := held
    refine ⟨row.val, List.idxOf?_eq_some_iff.mpr ⟨bound, held, ?_⟩, Row.ofPlace?_eq_some_iff.mpr rfl⟩
    intro earlier before same
    refine first.first earlier before ?_
    rw [← Array.getElem?_toList, List.getElem?_eq_getElem (Nat.lt_trans before bound), same]

/-- While all rows have numbers, only an identity that the column does not hold has no row. -/
theorem rowOf?_eq_none_iff (numbered : index.size ≤ Width.count .w32) :
    (ofIndex index).rowOf? id = none ↔ id ∉ index.ids.toList := by
  have entered := lookup_enter id ⟨[], 0⟩ 0 index.ids.toList
  simp only [List.lookup_nil, Option.none_or, Nat.zero_add] at entered
  rw [rowOf?, ofIndex, entered, ← List.idxOf?_eq_none_iff]
  cases found : index.ids.toList.idxOf? id with
  | none => simp
  | some place =>
    obtain ⟨bound, _⟩ := List.idxOf?_eq_some_iff.mp found
    have inside : place < Width.count .w32 := Nat.lt_of_lt_of_le bound numbered
    simp [Row.ofPlace?, inside]

end RowLookup

/-! ## The rows of a channel -/

/-- The rows of an index column that a set of identities comes to: each identity stands for the
    first row that holds it, and those without a row are counted as unmatched. -/
structure IndexColumn.Matches (index : IndexColumn) (ids : IdSet) (rows : RowSet)
    (counts : MatchCounts) : Prop where
  mem_iff : ∀ row, row ∈ rows ↔ ∃ id ∈ ids, index.FirstHolds row id
  total : counts.matched + counts.unmatched = ids.size
  unmatched : counts.unmatched = (ids.toList.filter fun id => !index.ids.toList.contains id).length

theorem RowLookup.mem_rowsOf {index : IndexColumn} {row : Row} {ids : IdSet} :
    row ∈ ((RowLookup.ofIndex index).rowsOf ids).1 ↔ ∃ id ∈ ids, index.FirstHolds row id := by
  simp only [rowsOf, Ascending.mem_ofList, List.mem_filterMap, List.mem_map]
  constructor
  · rintro ⟨_, ⟨id, member, rfl⟩, found⟩
    exact ⟨id, member, rowOf?_eq_some_iff.mp found⟩
  · rintro ⟨id, member, first⟩
    exact ⟨_, ⟨id, member, rfl⟩, rowOf?_eq_some_iff.mpr first⟩

theorem RowLookup.rowsOf_matches {index : IndexColumn} (ids : IdSet)
    (numbered : index.size ≤ Width.count .w32) :
    index.Matches ids ((RowLookup.ofIndex index).rowsOf ids).1
      ((RowLookup.ofIndex index).rowsOf ids).2 := by
  refine ⟨fun row => mem_rowsOf, ?_, ?_⟩
  · simp [rowsOf, MatchCounts.total, Ascending.size]
  · simp only [rowsOf, MatchCounts.ofAnswers, List.filter_map, List.length_map]
    congr 1
    apply List.filter_congr
    intro id _
    have absent : (ofIndex index).rowOf? id = none ↔ id ∉ index.ids.toList :=
      rowOf?_eq_none_iff numbered
    rw [Bool.eq_iff_iff]
    simpa [Option.isNone_iff_eq_none] using absent

/-! ## The rows that remain -/

theorem IndexColumn.mem_rowsWhere {test : Identity → Bool} {place : Nat} {ids : List Identity}
    {row : Row} : row ∈ rowsWhere test place ids ↔
      ∃ offset id, row.val = place + offset ∧ ids[offset]? = some id ∧ test id = true := by
  induction ids generalizing place with
  | nil => simp [rowsWhere]
  | cons head rest inductionHypothesis =>
    -- The head stands at the place itself, and the rest from the next place on.
    have split : (∃ offset id, row.val = place + offset ∧ (head :: rest)[offset]? = some id ∧
          test id = true) ↔
        row.val = place ∧ test head = true ∨ row ∈ rowsWhere test (place + 1) rest := by
      rw [inductionHypothesis]
      constructor
      · rintro ⟨offset, id, value, held, passes⟩
        cases offset with
        | zero =>
          simp only [List.getElem?_cons_zero, Option.some.injEq] at held
          exact .inl ⟨value, held ▸ passes⟩
        | succ offset => exact .inr ⟨offset, id, by omega, by simpa using held, passes⟩
      · rintro (⟨value, passes⟩ | ⟨offset, id, value, held, passes⟩)
        · exact ⟨0, head, value, rfl, passes⟩
        · exact ⟨offset + 1, id, by omega, by simpa using held, passes⟩
    rw [split, rowsWhere]
    -- A place beyond all row numbers is passed over.
    cases numbered : Row.ofPlace? place with
    | none =>
      have beyond : row.val ≠ place := by
        intro value
        rw [Row.ofPlace?_eq_some_iff.mpr value] at numbered
        contradiction
      simp [beyond]
    | some here =>
      have place_eq : row.val = place ↔ row = here := by
        rw [← Row.ofPlace?_eq_some_iff.mp numbered, Fin.ext_iff]
      by_cases passes : test head = true
      · simp [passes, place_eq]
      · simp [passes]

/-- The remaining rows are those whose identity is not filtered out. -/
theorem IndexColumn.mem_remainingRows {index : IndexColumn} {filtered : IdSet} {row : Row} :
    row ∈ index.remainingRows filtered ↔ ∃ id, index.ids[row.val]? = some id ∧ id ∉ filtered := by
  simp only [remainingRows, Ascending.mem_ofList, mem_rowsWhere, Nat.zero_add,
    Array.getElem?_toList, decide_eq_true_eq]
  constructor
  · rintro ⟨_, id, rfl, held, absent⟩
    exact ⟨id, held, absent⟩
  · rintro ⟨id, held, absent⟩
    exact ⟨_, id, rfl, held, absent⟩

end LinkedTables
