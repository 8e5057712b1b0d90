import LinkedTables.Proofs.RowMatching
import Mathlib.Data.List.Perm.Basic

/-! # From rows to identities and back

The identities at a set of rows come back as the first rows that hold them, and the rows of a set of
identities give back those identities that the column holds.  Both ways the counts are exact: of
the rows those inside the column are matched, of the identities those that have a row.  Filtering
is the other side of selecting: what remains holds no filtered identity, and where no identity
stands twice each row either remains or is selected. -/

namespace LinkedTables

namespace Ascending

variable {bound : Nat}

@[simp] theorem mem_toList {s : Ascending bound} {a : Fin bound} : a ∈ s.toList ↔ a ∈ s :=
  Iff.rfl

theorem size_ofList {members : List (Fin bound)} (distinct : members.Nodup) :
    (ofList members).size = members.length := by
  have perm : (ofList members).toList.Perm members :=
    (List.perm_ext_iff_of_nodup (ofList members).nodup distinct).mpr fun _ => mem_ofList
  exact perm.length_eq

end Ascending

theorem MatchCounts.isComplete_ofAnswers {α : Type} {answers : List (Option α)} :
    (ofAnswers answers).isComplete = true ↔ ∀ answer ∈ answers, answer ≠ none := by
  simp [isComplete, ofAnswers]

variable {index : IndexColumn} {id : Identity} {row : Row}

/-! ## First rows -/

namespace IndexColumn

theorem FirstHolds.row_unique {row row' : Row} (first : index.FirstHolds row id)
    (first' : index.FirstHolds row' id) : row = row' := by
  apply Fin.ext
  by_contra different
  rcases Nat.lt_or_gt_of_ne different with before | after
  · exact first'.first row.val before first.held
  · exact first.first row'.val after first'.held

theorem FirstHolds.id_unique {id id' : Identity} (first : index.FirstHolds row id)
    (first' : index.FirstHolds row id') : id = id' :=
  Option.some.inj (first.held.symm.trans first'.held)

theorem exists_firstHolds_iff (numbered : index.size ≤ Width.count .w32) :
    (∃ row, index.FirstHolds row id) ↔ id ∈ index.ids.toList := by
  rw [← not_iff_not, ← RowLookup.rowOf?_eq_none_iff numbered, Option.eq_none_iff_forall_ne_some]
  simp only [ne_eq, RowLookup.rowOf?_eq_some_iff, not_exists]

theorem mem_of_held (held : index.ids[row.val]? = some id) : id ∈ index.ids.toList := by
  rw [← Array.getElem?_toList] at held
  exact List.mem_of_getElem? held

theorem exists_held_iff : (∃ id, index.ids[row.val]? = some id) ↔ row.val < index.size := by
  simp [← Option.isSome_iff_exists, size]

end IndexColumn

/-! ## There -/

/-- The identities that a set of rows comes to: those that the column holds at one of the rows, where
    the rows inside the column are counted as matched. -/
structure IndexColumn.Identifies (index : IndexColumn) (rows : RowSet) (ids : IdSet)
    (counts : MatchCounts) : Prop where
  mem_iff : ∀ id, id ∈ ids ↔ ∃ row ∈ rows, index.ids[row.val]? = some id
  matched : counts.matched = (rows.toList.filter fun row => row.val < index.size).length
  total : counts.matched + counts.unmatched = rows.size

theorem IndexColumn.idsOf_identifies (index : IndexColumn) (rows : RowSet) :
    index.Identifies rows (index.idsOf rows).1 (index.idsOf rows).2 := by
  refine ⟨fun id => mem_idsOf, ?_, ?_⟩
  · simp only [idsOf, MatchCounts.ofAnswers, List.filter_map, List.length_map]
    congr 1
    apply List.filter_congr
    intro row _
    rw [Bool.eq_iff_iff, decide_eq_true_eq]
    simp [size]
  · simp [idsOf, MatchCounts.total, Ascending.size]

theorem IndexColumn.isComplete_idsOf {rows : RowSet} :
    (index.idsOf rows).2.isComplete = true ↔ ∀ row ∈ rows, row.val < index.size := by
  simp [idsOf, MatchCounts.isComplete_ofAnswers, size]

namespace RowLookup

theorem size_rowsOf (ids : IdSet) :
    ((ofIndex index).rowsOf ids).1.size = ((ofIndex index).rowsOf ids).2.matched := by
  -- Different identities have different first rows, so no row is lost when the rows become a set.
  have distinct : ((ids.toList.map (ofIndex index).rowOf?).filterMap id).Nodup := by
    rw [List.filterMap_map]
    apply ids.nodup.filterMap
    intro id id' row found found'
    exact (rowOf?_eq_some_iff.mp found).id_unique (rowOf?_eq_some_iff.mp found')
  simp only [rowsOf, MatchCounts.ofAnswers, Ascending.size_ofList distinct]
  rw [List.length_filterMap_eq_countP, List.countP_eq_length_filter]
  rfl

theorem isComplete_rowsOf (numbered : index.size ≤ Width.count .w32) {ids : IdSet} :
    ((ofIndex index).rowsOf ids).2.isComplete = true ↔ ∀ id ∈ ids, id ∈ index.ids.toList := by
  simp [rowsOf, MatchCounts.isComplete_ofAnswers, rowOf?_eq_none_iff numbered]

end RowLookup

/-! ## And back -/

namespace RowLookup

theorem mem_idsOf_rowsOf (numbered : index.size ≤ Width.count .w32) {ids : IdSet} :
    id ∈ (index.idsOf ((ofIndex index).rowsOf ids).1).1 ↔ id ∈ ids ∧ id ∈ index.ids.toList := by
  rw [IndexColumn.mem_idsOf]
  constructor
  · rintro ⟨row, selected, held⟩
    obtain ⟨other, member, first⟩ := mem_rowsOf.mp selected
    obtain rfl : other = id := Option.some.inj (first.held.symm.trans held)
    exact ⟨member, IndexColumn.mem_of_held held⟩
  · rintro ⟨member, occurs⟩
    obtain ⟨row, first⟩ := (IndexColumn.exists_firstHolds_iff numbered).mpr occurs
    exact ⟨row, mem_rowsOf.mpr ⟨id, member, first⟩, first.held⟩

theorem mem_rowsOf_idsOf {rows : RowSet} :
    row ∈ ((ofIndex index).rowsOf (index.idsOf rows).1).1 ↔
      ∃ other ∈ rows, ∃ id, index.ids[other.val]? = some id ∧ index.FirstHolds row id := by
  rw [mem_rowsOf]
  simp only [IndexColumn.mem_idsOf]
  constructor
  · rintro ⟨id, ⟨other, member, held⟩, first⟩
    exact ⟨other, member, id, held, first⟩
  · rintro ⟨other, member, id, held, first⟩
    exact ⟨id, ⟨other, member, held⟩, first⟩

theorem mem_rowsOf_idsOf_of_unique (unique : index.ids.toList.Nodup) {rows : RowSet} :
    row ∈ ((ofIndex index).rowsOf (index.idsOf rows).1).1 ↔ row ∈ rows ∧ row.val < index.size := by
  rw [mem_rowsOf_idsOf, ← IndexColumn.exists_held_iff]
  constructor
  · rintro ⟨other, member, id, held, first⟩
    have first' := (IndexColumn.firstHolds_iff unique).mpr held
    obtain rfl := first.row_unique first'
    exact ⟨member, id, held⟩
  · rintro ⟨member, id, held⟩
    exact ⟨row, member, id, held, (IndexColumn.firstHolds_iff unique).mpr held⟩

/-- Rows and identities translate into each other with exact counts, as partial inverses: the
    identities at a set of rows come back as their first rows, so as the rows themselves where no
    identity stands twice, and the rows of a set of identities give back those that occur. -/
theorem translations_inverse (index : IndexColumn) (numbered : index.size ≤ Width.count .w32)
    (rows : RowSet) (ids : IdSet) :
    index.Identifies rows (index.idsOf rows).1 (index.idsOf rows).2 ∧
    index.Matches ids ((ofIndex index).rowsOf ids).1 ((ofIndex index).rowsOf ids).2 ∧
    ((ofIndex index).rowsOf ids).1.size = ((ofIndex index).rowsOf ids).2.matched ∧
    (∀ id, id ∈ (index.idsOf ((ofIndex index).rowsOf ids).1).1 ↔
      id ∈ ids ∧ id ∈ index.ids.toList) ∧
    (index.idsOf ((ofIndex index).rowsOf ids).1).2.isComplete = true ∧
    (∀ row, row ∈ ((ofIndex index).rowsOf (index.idsOf rows).1).1 ↔
      ∃ other ∈ rows, ∃ id, index.ids[other.val]? = some id ∧ index.FirstHolds row id) ∧
    ((ofIndex index).rowsOf (index.idsOf rows).1).2.isComplete = true ∧
    (index.ids.toList.Nodup → ∀ row, row ∈ ((ofIndex index).rowsOf (index.idsOf rows).1).1 ↔
      row ∈ rows ∧ row.val < index.size) := by
  refine ⟨index.idsOf_identifies rows, rowsOf_matches ids numbered, size_rowsOf ids,
    fun id => mem_idsOf_rowsOf numbered, ?_, fun row => mem_rowsOf_idsOf, ?_,
    fun unique row => mem_rowsOf_idsOf_of_unique unique⟩
  · rw [IndexColumn.isComplete_idsOf]
    intro row selected
    obtain ⟨id, _, first⟩ := mem_rowsOf.mp selected
    exact IndexColumn.exists_held_iff.mp ⟨id, first.held⟩
  · rw [isComplete_rowsOf numbered]
    intro id gathered
    obtain ⟨row, _, held⟩ := IndexColumn.mem_idsOf.mp gathered
    exact IndexColumn.mem_of_held held

def twice : IndexColumn :=
  .ofIds "index" (IndexColumn.consecutive 5 2 ++ IndexColumn.consecutive 5 1)

def once : IndexColumn :=
  .ofIds "index" (IndexColumn.consecutive 5 3)

def third : RowSet :=
  .ofList [⟨2, by decide⟩, ⟨9, by decide⟩]

/-- The third row comes back as the first where both hold one identity, and as itself where no
    identity stands twice.  There is no tenth row to come back. -/
theorem translations_inverse_third :
    twice.size ≤ Width.count .w32 ∧ ⟨0, by decide⟩ ∈ ((ofIndex twice).rowsOf (twice.idsOf third).1).1 ∧
      once.size ≤ Width.count .w32 ∧ once.ids.toList.Nodup ∧
      ⟨2, by decide⟩ ∈ ((ofIndex once).rowsOf (once.idsOf third).1).1 ∧
      ⟨9, by decide⟩ ∉ ((ofIndex once).rowsOf (once.idsOf third).1).1 := by
  have small : twice.size ≤ Width.count .w32 := by decide
  have small' : once.size ≤ Width.count .w32 := by decide
  have unique : once.ids.toList.Nodup := by decide
  obtain ⟨_, _, _, _, _, back, _, _⟩ := translations_inverse twice small third .empty
  obtain ⟨_, _, _, _, _, _, _, itself⟩ := translations_inverse once small' third .empty
  have first : twice.FirstHolds ⟨0, by decide⟩ ⟨5, by decide⟩ :=
    ⟨by decide, fun earlier before => absurd before (Nat.not_lt_zero earlier)⟩
  refine ⟨small, ?_, small', unique, ?_, ?_⟩
  · exact (back _).mpr ⟨⟨2, by decide⟩, by decide, ⟨5, by decide⟩, by decide, first⟩
  · exact (itself unique _).mpr ⟨by decide, by decide⟩
  · intro returned
    exact absurd ((itself unique _).mp returned).2 (by decide)

end RowLookup

/-! ## What remains -/

namespace IndexColumn

variable {ids others : IdSet}

theorem mem_remainingRows_iff : row ∈ index.remainingRows ids ↔
    ∃ inside : row.val < index.ids.size, index.ids[row.val] ∉ ids := by
  simp [mem_remainingRows, Array.getElem?_eq_some_iff]

theorem mem_remainingRows_union : row ∈ index.remainingRows (ids.union others) ↔
    row ∈ index.remainingRows ids ∧ row ∈ index.remainingRows others := by
  simp only [mem_remainingRows_iff, Ascending.mem_union, not_or]
  constructor
  · rintro ⟨inside, absent, absent'⟩
    exact ⟨⟨inside, absent⟩, inside, absent'⟩
  · rintro ⟨⟨inside, absent⟩, _, absent'⟩
    exact ⟨inside, absent, absent'⟩

theorem FirstHolds.not_remains (first : index.FirstHolds row id) (member : id ∈ ids) :
    row ∉ index.remainingRows ids := by
  rw [mem_remainingRows]
  rintro ⟨other, held, absent⟩
  obtain rfl : id = other := Option.some.inj (first.held.symm.trans held)
  exact absent member

/-- Where no identity stands twice, a row that does not remain is the first to hold its identity. -/
theorem remains_or_selected (unique : index.ids.toList.Nodup) :
    row ∈ index.remainingRows ids ∨ row ∈ ((RowLookup.ofIndex index).rowsOf ids).1 ↔
      row.val < index.size := by
  rw [mem_remainingRows, RowLookup.mem_rowsOf, ← exists_held_iff]
  simp only [firstHolds_iff unique]
  constructor
  · rintro (⟨id, held, _⟩ | ⟨id, _, held⟩)
    · exact ⟨id, held⟩
    · exact ⟨id, held⟩
  · rintro ⟨id, held⟩
    by_cases filtered : id ∈ ids
    · exact .inr ⟨id, filtered, held⟩
    · exact .inl ⟨id, held, filtered⟩

/-- The rows that remain are those without a filtered identity, so none of them is selected by the
    filter; where no identity stands twice all rows either remain or are selected.  What two
    filters leave together is what both leave. -/
theorem remaining_complements (index : IndexColumn) (numbered : index.size ≤ Width.count .w32)
    (ids others : IdSet) :
    (∀ row, row ∈ index.remainingRows ids ↔
      ∃ inside : row.val < index.ids.size, index.ids[row.val] ∉ ids) ∧
    (∀ row ∈ index.remainingRows ids, row ∉ ((RowLookup.ofIndex index).rowsOf ids).1) ∧
    (index.ids.toList.Nodup →
      (((index.remainingRows ids).toList ++ ((RowLookup.ofIndex index).rowsOf ids).1.toList).map
        Fin.val).Perm (List.range index.size)) ∧
    ∀ row, row ∈ index.remainingRows (ids.union others) ↔
      row ∈ index.remainingRows ids ∧ row ∈ index.remainingRows others := by
  have disjoint : ∀ row ∈ index.remainingRows ids,
      row ∉ ((RowLookup.ofIndex index).rowsOf ids).1 := by
    intro row remains selected
    obtain ⟨id, member, first⟩ := RowLookup.mem_rowsOf.mp selected
    exact first.not_remains member remains
  refine ⟨fun row => mem_remainingRows_iff, disjoint, ?_, fun row => mem_remainingRows_union⟩
  intro unique
  -- Without repetitions on either side the two lists need only have the members of the range.
  have distinct : ((index.remainingRows ids).toList ++
      ((RowLookup.ofIndex index).rowsOf ids).1.toList).Nodup := by
    apply (index.remainingRows ids).nodup.append (Ascending.nodup _)
    intro row remains selected
    exact disjoint row remains selected
  refine (List.perm_ext_iff_of_nodup (distinct.map fun _ _ => Fin.ext) List.nodup_range).mpr ?_
  intro place
  rw [List.mem_map, List.mem_range]
  simp only [List.mem_append, Ascending.mem_toList, remains_or_selected unique]
  constructor
  · rintro ⟨row, inside, rfl⟩
    exact inside
  · intro inside
    exact ⟨⟨place, Nat.lt_of_lt_of_le inside numbered⟩, inside, rfl⟩

/-- The second of three rows is filtered out, and an identity that no row holds changes nothing. -/
theorem remaining_complements_second :
    RowLookup.once.size ≤ Width.count .w32 ∧ RowLookup.once.ids.toList.Nodup ∧
      (((RowLookup.once.remainingRows (.ofList [⟨6, by decide⟩, ⟨8, by decide⟩])).toList ++
        ((RowLookup.ofIndex RowLookup.once).rowsOf
          (.ofList [⟨6, by decide⟩, ⟨8, by decide⟩])).1.toList).map Fin.val).Perm [0, 1, 2] := by
  have small : RowLookup.once.size ≤ Width.count .w32 := by decide
  have unique : RowLookup.once.ids.toList.Nodup := by decide
  obtain ⟨_, _, cover, _⟩ := remaining_complements RowLookup.once small
    (.ofList [⟨6, by decide⟩, ⟨8, by decide⟩]) .empty
  exact ⟨small, unique, cover unique⟩

end IndexColumn

end LinkedTables
