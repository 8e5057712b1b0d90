import LinkedTables.Proofs.RowMatching
import Mathlib.Data.List.Dedup
import Mathlib.Data.List.Perm.Basic

/-! # Identities that stand at more than one row

An index column lists the identities that are repeated, once each; the look-up of its rows counts
the rows that repeat an identity.  An identity at three rows is one of the former and two of the
latter, but both say whether there are any, and neither depends on the order of the rows. -/

namespace LinkedTables

namespace IndexColumn

variable {index : IndexColumn} {id : Identity} {ids seen : List Identity}

/-! ## Repetitions -/

/-- An identity is found again if it has been seen before or stands twice in what is left. -/
theorem mem_repetitions_iff :
    id ∈ repetitions seen ids ↔ id ∈ seen ∧ id ∈ ids ∨ 2 ≤ ids.count id := by
  induction ids generalizing seen with
  | nil => simp
  | cons head rest inductionHypothesis =>
    have once : id ∈ rest ↔ 1 ≤ rest.count id := List.count_pos_iff.symm
    by_cases same : id = head
    · subst same
      by_cases known : id ∈ seen
      · simp [known]
      · rw [repetitions, if_neg known, inductionHypothesis, List.count_cons_self]
        simp only [List.mem_cons, known, true_or, true_and, false_and, false_or, once]
        omega
    · have count_eq : (head :: rest).count id = rest.count id :=
        List.count_cons_of_ne (Ne.symm same)
      by_cases known : head ∈ seen
      · simp [known, inductionHypothesis, same, count_eq]
      · simp [known, inductionHypothesis, same, count_eq]

theorem repetitions_eq_nil_iff : repetitions [] ids = [] ↔ ids.Nodup := by
  rw [List.eq_nil_iff_forall_not_mem, List.nodup_iff_count_le_one]
  refine forall_congr' fun id => ?_
  simp only [mem_repetitions_iff, List.not_mem_nil, false_and, false_or]
  omega

/-- All are new exactly if the search for repetitions, which goes on behind the first, finds none. -/
theorem allNew_iff : allNew seen ids = true ↔ repetitions seen ids = [] := by
  induction ids generalizing seen with
  | nil => simp
  | cons head rest inductionHypothesis =>
    by_cases known : head ∈ seen
    case pos => simp [known]
    case neg => simp [known, inductionHypothesis]

theorem isUnique_iff : index.isUnique = true ↔ index.ids.toList.Nodup := by
  rw [isUnique, allNew_iff, repetitions_eq_nil_iff]

/-! ## The list of repeated identities -/

@[simp] theorem mem_dropRuns_iff : id ∈ dropRuns ids ↔ id ∈ ids := by
  fun_induction dropRuns ids with
  | case1 head rest inductionHypothesis => simp [inductionHypothesis]
  | case2 head next rest different inductionHypothesis => simp [inductionHypothesis]
  | case3 short => rfl

theorem pairwise_dropRuns (sorted : ids.Pairwise (· ≤ ·)) : (dropRuns ids).Pairwise (· < ·) := by
  fun_induction dropRuns ids with
  | case1 head rest inductionHypothesis => exact inductionHypothesis sorted.tail
  | case2 head next rest different inductionHypothesis =>
    obtain ⟨least, sorted⟩ := List.pairwise_cons.mp sorted
    refine List.pairwise_cons.mpr ⟨fun other member => ?_, inductionHypothesis sorted⟩
    have lower : head < next :=
      Nat.lt_of_le_of_ne (least next (by simp)) fun same => different (Fin.ext same)
    rcases List.mem_cons.mp (mem_dropRuns_iff.mp member) with rfl | later
    · exact lower
    · exact Fin.lt_of_lt_of_le lower ((List.pairwise_cons.mp sorted).1 other later)
  | case3 short single =>
    match short, single with
    | [], _ => exact .nil
    | [head], _ => exact List.pairwise_singleton _ _
    | head :: next :: rest, single => exact absurd rfl (single head next rest)

theorem mem_duplicates_iff : id ∈ index.duplicates ↔ 2 ≤ index.ids.toList.count id := by
  rw [duplicates, mem_dropRuns_iff, List.mem_mergeSort, mem_repetitions_iff]
  simp

theorem pairwise_duplicates : index.duplicates.Pairwise (· < ·) := by
  apply pairwise_dropRuns
  have sorted : (List.mergeSort (repetitions [] index.ids.toList) fun a b => a.val ≤ b.val).Pairwise
      fun a b => decide (a.val ≤ b.val) = true := by
    apply List.pairwise_mergeSort
    · intro a b c lower higher
      exact decide_eq_true (Nat.le_trans (of_decide_eq_true lower) (of_decide_eq_true higher))
    · intro a b
      rw [Bool.or_eq_true, decide_eq_true_eq, decide_eq_true_eq]
      exact Nat.le_total a.val b.val
  exact sorted.imp fun lower => Fin.le_def.mpr (of_decide_eq_true lower)

theorem duplicates_eq_nil_iff : index.duplicates = [] ↔ index.ids.toList.Nodup := by
  rw [List.eq_nil_iff_forall_not_mem, List.nodup_iff_count_le_one]
  refine forall_congr' fun id => ?_
  rw [mem_duplicates_iff]
  omega

end IndexColumn

/-! ## The look-up of rows -/

namespace RowLookup

variable {index : IndexColumn} {id : Identity}

theorem lookup_eq_none_iff {lookup : RowLookup} :
    lookup.firstRows.lookup id = none ↔ id ∉ lookup.firstRows.map Prod.fst := by
  rw [List.lookup_eq_none_iff, List.mem_map]
  constructor
  · rintro different ⟨entry, member, rfl⟩
    simpa using different entry member
  · intro absent entry member
    have different : id ≠ entry.1 := fun same => absent ⟨entry, member, same.symm⟩
    simpa using different

/-- No identity is entered twice. -/
theorem nodup_enter (lookup : RowLookup) (place : Nat) (ids : List Identity)
    (distinct : (lookup.firstRows.map Prod.fst).Nodup) :
    ((lookup.enter place ids).firstRows.map Prod.fst).Nodup := by
  induction ids generalizing lookup place with
  | nil => exact distinct
  | cons head rest inductionHypothesis =>
    rw [enter]
    split
    · exact distinct
    split
    next => exact inductionHypothesis _ _ distinct
    next absent =>
      apply inductionHypothesis
      exact List.nodup_cons.mpr ⟨lookup_eq_none_iff.mp absent, distinct⟩

theorem size_enter (lookup : RowLookup) {place : Nat} {ids : List Identity}
    (numbered : place + ids.length ≤ Width.count .w32) :
    (lookup.enter place ids).size + (lookup.enter place ids).duplicates =
      lookup.size + lookup.duplicates + ids.length := by
  induction ids generalizing lookup place with
  | nil => rfl
  | cons head rest inductionHypothesis =>
    rw [List.length_cons] at numbered ⊢
    have here : Row.ofPlace? place = some ⟨place, by omega⟩ := Row.ofPlace?_eq_some_iff.mpr rfl
    have later : place + 1 + rest.length ≤ Width.count .w32 := by omega
    cases known : lookup.firstRows.lookup head with
    | some row =>
      simp only [enter, here, known, inductionHypothesis _ later]
      simp only [size]
      omega
    | none =>
      simp only [enter, here, known, inductionHypothesis _ later]
      simp only [size, List.length_cons]
      omega

theorem size_add_duplicates (numbered : index.size ≤ Width.count .w32) :
    (ofIndex index).size + (ofIndex index).duplicates = index.size := by
  have bound : 0 + index.ids.toList.length ≤ Width.count .w32 := by
    rwa [Nat.zero_add, Array.length_toList]
  rw [ofIndex, size_enter ⟨[], 0⟩ bound, Array.length_toList]
  exact Nat.zero_add _

theorem size_ofIndex (numbered : index.size ≤ Width.count .w32) :
    (ofIndex index).size = index.ids.toList.dedup.length := by
  have distinct : ((ofIndex index).firstRows.map Prod.fst).Nodup :=
    nodup_enter ⟨[], 0⟩ 0 index.ids.toList List.nodup_nil
  have perm : ((ofIndex index).firstRows.map Prod.fst).Perm index.ids.toList.dedup := by
    refine (List.perm_ext_iff_of_nodup distinct (List.nodup_dedup _)).mpr fun id => ?_
    rw [List.mem_dedup, ← not_iff_not, ← lookup_eq_none_iff]
    exact rowOf?_eq_none_iff numbered
  simpa [size] using perm.length_eq

theorem duplicates_eq_zero_iff (numbered : index.size ≤ Width.count .w32) :
    (ofIndex index).duplicates = 0 ↔ index.ids.toList.Nodup := by
  have total := size_add_duplicates numbered
  rw [size_ofIndex numbered] at total
  have length_eq : index.ids.toList.length = index.size := Array.length_toList
  constructor
  · intro none
    have same : index.ids.toList.dedup = index.ids.toList :=
      (List.dedup_sublist _).eq_of_length (by omega)
    exact List.dedup_eq_self.mp same
  · intro unique
    rw [List.dedup_eq_self.mpr unique] at total
    omega

/-- The look-up holds each identity once and counts each row that repeats one, the column lists each
    repeated identity once in increasing order, and they agree on whether there is any.  Only the
    first row of an identity depends on the order of the rows. -/
theorem repetitions_agree (index : IndexColumn) (numbered : index.size ≤ Width.count .w32) :
    (ofIndex index).size = index.ids.toList.dedup.length ∧
    (ofIndex index).size + (ofIndex index).duplicates = index.size ∧
    (∀ id row, (ofIndex index).rowOf? id = some row ↔ index.FirstHolds row id) ∧
    (∀ id, (ofIndex index).rowOf? id = none ↔ id ∉ index.ids.toList) ∧
    index.duplicates.Pairwise (· < ·) ∧
    (∀ id, id ∈ index.duplicates ↔ 2 ≤ index.ids.toList.count id) ∧
    (index.isUnique = true ↔ index.duplicates = []) ∧
    (index.duplicates = [] ↔ (ofIndex index).duplicates = 0) ∧
    ∀ other : IndexColumn, other.ids.toList.Perm index.ids.toList →
      (ofIndex other).size = (ofIndex index).size ∧
      (ofIndex other).duplicates = (ofIndex index).duplicates ∧
      other.duplicates = index.duplicates ∧ other.isUnique = index.isUnique := by
  refine ⟨size_ofIndex numbered, size_add_duplicates numbered, fun id row => rowOf?_eq_some_iff,
    fun id => rowOf?_eq_none_iff numbered, IndexColumn.pairwise_duplicates,
    fun id => IndexColumn.mem_duplicates_iff, ?_, ?_, ?_⟩
  · rw [IndexColumn.isUnique_iff, IndexColumn.duplicates_eq_nil_iff]
  · rw [IndexColumn.duplicates_eq_nil_iff, duplicates_eq_zero_iff numbered]
  · intro other moved
    have size_eq : other.size = index.size := moved.length_eq
    have numbered' : other.size ≤ Width.count .w32 := by rwa [size_eq]
    -- None of the counts depends on where an identity stands.
    have sizes : (ofIndex other).size = (ofIndex index).size := by
      rw [size_ofIndex numbered', size_ofIndex numbered]
      exact moved.dedup.length_eq
    have total := size_add_duplicates numbered
    have total' := size_add_duplicates numbered'
    refine ⟨sizes, by omega, ?_, ?_⟩
    · -- Both lists are increasing, so their members tell them apart, and these depend on counts only.
      have same : (⟨_, other.pairwise_duplicates⟩ : Ascending (Width.count .w64)) =
          ⟨_, index.pairwise_duplicates⟩ := by
        apply Ascending.ext
        intro id
        exact IndexColumn.mem_duplicates_iff.trans
          ((moved.count_eq id).symm ▸ IndexColumn.mem_duplicates_iff.symm)
      exact congrArg Ascending.toList same
    · rw [Bool.eq_iff_iff, IndexColumn.isUnique_iff, IndexColumn.isUnique_iff]
      exact moved.nodup_iff

def thrice : IndexColumn :=
  .ofIds "index" (IndexColumn.consecutive 5 2 ++ IndexColumn.consecutive 5 1 ++
    IndexColumn.consecutive 5 1)

/-- Two rows repeat one identity, in whatever order they stand. -/
theorem repetitions_agree_thrice :
    thrice.size ≤ Width.count .w32 ∧ (ofIndex thrice).size = 2 ∧ (ofIndex thrice).duplicates = 2 ∧
      ⟨5, by decide⟩ ∈ thrice.duplicates ∧
      thrice.ids.toList.reverse.Perm thrice.ids.toList ∧
      (ofIndex (.ofIds "index" thrice.ids.toList.reverse)).duplicates = 2 := by
  have small : thrice.size ≤ Width.count .w32 := by decide
  have moved : thrice.ids.toList.reverse.Perm thrice.ids.toList := List.reverse_perm _
  obtain ⟨size, total, _, _, _, listed, _, _, alike⟩ := repetitions_agree thrice small
  have identities : thrice.ids.toList.dedup.length = 2 := by decide
  have rows : thrice.size = 4 := rfl
  have repeated : (ofIndex thrice).duplicates = 2 := by omega
  refine ⟨small, by omega, repeated, (listed _).mpr (by decide), moved, ?_⟩
  obtain ⟨_, duplicates_eq, _⟩ := alike (.ofIds "index" thrice.ids.toList.reverse) moved
  rw [duplicates_eq, repeated]

end RowLookup

end LinkedTables
