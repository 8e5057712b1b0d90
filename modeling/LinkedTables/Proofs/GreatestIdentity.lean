import LinkedTables.Proofs.IndexUpdate
import LinkedTables.Proofs.RowAppend
import Mathlib.Data.List.Induction

/-! # The greatest identity

A new row gets the identity above the greatest one, which an index column tracks instead of looking
for it.  Each operation on a column does its own to keep track: pushing compares, extending takes
the last of the new identities, and cutting looks anew. -/

namespace LinkedTables

namespace Identity

variable {ids : List Identity} {id greatest : Identity}

@[simp] theorem greatest?_concat (ids : List Identity) (id : Identity) :
    greatest? (ids ++ [id]) = raise (greatest? ids) id := by
  rw [greatest?, List.foldl_append]
  rfl

theorem exists_raise (tracked : Option Identity) (id : Identity) :
    ∃ raised, raise tracked id = some raised ∧ id ≤ raised ∧ (∀ old ∈ tracked, old ≤ raised) ∧
      (raised = id ∨ tracked = some raised) := by
  cases tracked with
  | none => exact ⟨id, rfl, Fin.le_refl id, by simp, .inl rfl⟩
  | some old =>
    simp only [raise, Option.mem_some_iff, forall_eq']
    by_cases above : old.val < id.val
    · exact ⟨id, by rw [if_pos above], Fin.le_refl id, Fin.le_of_lt above, .inl rfl⟩
    · exact ⟨old, by rw [if_neg above], Fin.not_lt.mp above, Fin.le_refl old, .inr rfl⟩

theorem mem_of_greatest? (found : greatest? ids = some greatest) : greatest ∈ ids := by
  induction ids using List.reverseRecOn generalizing greatest with
  | nil => contradiction
  | append_singleton ids last inductionHypothesis =>
    obtain ⟨raised, raise_eq, _, _, origin⟩ := exists_raise (greatest? ids) last
    rw [greatest?_concat, raise_eq, Option.some.injEq] at found
    subst found
    rcases origin with rfl | earlier
    · simp
    · exact List.mem_append_left _ (inductionHypothesis earlier)

theorem le_greatest? (member : id ∈ ids) :
    ∃ greatest, greatest? ids = some greatest ∧ id ≤ greatest := by
  -- The fold takes the identities from the left, so the last one is raised to last.
  induction ids using List.reverseRecOn with
  | nil => contradiction
  | append_singleton ids last inductionHypothesis =>
    obtain ⟨raised, raise_eq, above_last, above_old, _⟩ := exists_raise (greatest? ids) last
    refine ⟨raised, by rw [greatest?_concat, raise_eq], ?_⟩
    rcases List.mem_append.mp member with earlier | here
    · obtain ⟨old, found, below⟩ := inductionHypothesis earlier
      exact Fin.le_trans below (above_old old found)
    · rw [List.mem_singleton.mp here]
      exact above_last

/-- The greatest identity of a list is the member that no member exceeds. -/
theorem greatest?_eq_some_iff :
    greatest? ids = some greatest ↔ greatest ∈ ids ∧ ∀ id ∈ ids, id ≤ greatest := by
  constructor
  · intro found
    refine ⟨mem_of_greatest? found, fun id member => ?_⟩
    obtain ⟨other, found', below⟩ := le_greatest? member
    rw [found, Option.some.injEq] at found'
    exact found' ▸ below
  · rintro ⟨member, above⟩
    obtain ⟨other, found, below⟩ := le_greatest? member
    rw [found, Fin.le_antisymm below (above other (mem_of_greatest? found))]

end Identity

namespace IndexColumn

variable {index : IndexColumn} {count : Nat} {start last id : Identity}

theorem mem_consecutive (start count : Nat) (id : Identity) :
    id ∈ consecutive start count ↔ start ≤ id.val ∧ id.val < start + count := by
  have listed : id ∈ consecutive start count ↔
      id.val ∈ (consecutive start count).map (·.val) := by
    rw [List.mem_map]
    constructor
    · intro member
      exact ⟨id, member, rfl⟩
    · rintro ⟨other, member, equal⟩
      rwa [← Fin.ext equal]
  have bound := id.isLt
  rw [listed, consecutive_values, List.mem_range'_1]
  omega

theorem pairwise_consecutive (start count : Nat) : (consecutive start count).Pairwise (· < ·) := by
  have values : ((consecutive start count).map (·.val)).Pairwise (· < ·) := by
    rw [consecutive_values]
    exact List.pairwise_lt_range'
  exact values.of_map (·.val) fun _ _ below => below

theorem length_consecutive (fits : start.val + count ≤ Width.count .w64) :
    (consecutive start.val count).length = count := by
  have values := congrArg List.length (consecutive_values start.val count)
  rw [List.length_map, List.length_range'] at values
  omega

/-! ## What an extension comes to -/

/-- The outcome of an extension: nothing is asked, the identities run out, or fresh ones follow. -/
inductive Extended (count : Nat) (index : IndexColumn) :
    Except TableError Unit × IndexColumn → Prop where
  | idle (none : count = 0) : Extended count index (.ok (), index)
  | refused : Extended count index (.error (.identitiesExhausted index.header), index)
  | extended {start last : Identity} (next : index.nextId = .ok start) (asked : 0 < count)
      (reach : last.val + 1 = start.val + count) :
      Extended count index (.ok (), { index with
        ids := index.ids ++ consecutive start.val count
        greatest := some last })

theorem extend_extended (count : Nat) (index : IndexColumn) :
    Extended count index (index.extend count) := by
  simp only [extend]
  split
  next none => exact .idle none
  next asked =>
    split
    next cause next =>
      obtain ⟨_, _, _, rfl⟩ := nextId_error_iff.mp next
      exact .refused
    next start next =>
      split
      next fits =>
        refine .extended next (Nat.pos_of_ne_zero asked) ?_
        show start.val + (count - 1) + 1 = start.val + count
        omega
      next => exact .refused

/-! ## The greatest identity is tracked -/

/-- The tracked identity is the greatest one of the column. -/
def Tracked (index : IndexColumn) : Prop :=
  index.greatest = Identity.greatest? index.ids.toList

theorem Tracked.lt_nextId (tracked : index.Tracked) (next : index.nextId = .ok start)
    (member : id ∈ index.ids.toList) : id < start := by
  obtain ⟨greatest, found, below⟩ := Identity.le_greatest? member
  rw [nextId, tracked, found] at next
  simp only at next
  split at next
  next room =>
    cases next
    exact Fin.lt_def.mpr (Nat.lt_succ_of_le (Fin.le_def.mp below))
  next => contradiction

theorem Tracked.push (tracked : index.Tracked) (id : Identity) : (index.push id).Tracked := by
  simp only [Tracked, IndexColumn.push, Array.toList_push, Identity.greatest?_concat]
  rw [tracked]

theorem Tracked.extended (tracked : index.Tracked) (next : index.nextId = .ok start)
    (asked : 0 < count) (reach : last.val + 1 = start.val + count) :
    ({ index with
      ids := index.ids ++ consecutive start.val count
      greatest := last } : IndexColumn).Tracked := by
  rw [Tracked, eq_comm, Array.toList_appendList, Identity.greatest?_eq_some_iff]
  have new : last ∈ consecutive start.val count := (mem_consecutive ..).mpr (by omega)
  refine ⟨List.mem_append_right _ new, fun id member => ?_⟩
  rcases List.mem_append.mp member with old | fresh
  · have below : id.val < start.val := tracked.lt_nextId next old
    exact Fin.le_def.mpr (by omega)
  · have bounds := (mem_consecutive ..).mp fresh
    exact Fin.le_def.mpr (by omega)

theorem Tracked.truncate (tracked : index.Tracked) (size : Nat) :
    (index.truncate size).Tracked := by
  simp only [IndexColumn.truncate]
  split
  · rfl
  · exact tracked

/-- How index columns come about: of given identities, among them none at all and the first few, and
    by the operations on columns. -/
inductive Built : IndexColumn → Prop where
  | ofIds (header : String) (ids : List Identity) : Built (.ofIds header ids)
  | renamed {index : IndexColumn} (built : Built index) (header : String) :
      Built { index with header }
  | push {index : IndexColumn} (built : Built index) (id : Identity) : Built (index.push id)
  | extend {index : IndexColumn} (built : Built index) (count : Nat) : Built (index.extend count).2
  | truncate {index : IndexColumn} (built : Built index) (size : Nat) : Built (index.truncate size)

theorem Built.tracked (built : index.Built) : index.Tracked := by
  induction built with
  | ofIds header ids => rfl
  | renamed _ header tracked => exact tracked
  | push _ id tracked => exact tracked.push id
  | @extend index _ count tracked =>
    have outcome := extend_extended count index
    generalize index.extend count = result at outcome ⊢
    cases outcome with
    | idle none => exact tracked
    | refused => exact tracked
    | extended next asked reach => exact tracked.extended next asked reach
  | truncate _ size tracked => exact tracked.truncate size

end IndexColumn

end LinkedTables
