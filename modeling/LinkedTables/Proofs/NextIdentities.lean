import LinkedTables.Proofs.IndexAlignment

/-! # The identities that come next

Whatever has been done to an index column, the identity that it tracks is the greatest of those that
it holds.  So the next one is known without a search, and there is none exactly if the last identity
of all is held.  An extension asks for consecutive identities from there on, and the last of them
decides: if it is in range all of them are appended, and else none is. -/

namespace LinkedTables

namespace Identity

variable {ids : List Identity} {number other : Nat}

/-- Behind given identities there is one number only. -/
theorem Next.unique (next : Next ids number) (next' : Next ids other) : number = other := by
  rcases next with ⟨rfl, rfl⟩ | ⟨greatest, held, most, rfl⟩
  · rcases next' with ⟨_, rfl⟩ | ⟨_, held, _⟩
    · rfl
    · contradiction
  · exact (next'.eq_of_greatest held most).symm

end Identity

namespace IndexColumn

variable {index : IndexColumn} {id : Identity} {count : Nat}

/-! ## The next identity -/

theorem Tracked.greatest_eq_some_iff (tracked : index.Tracked) :
    index.greatest = some id ↔
      id ∈ index.ids.toList ∧ ∀ other ∈ index.ids.toList, other ≤ id := by
  rw [Tracked] at tracked
  rw [tracked, Identity.greatest?_eq_some_iff]

theorem Tracked.greatest_eq_none_iff (tracked : index.Tracked) :
    index.greatest = none ↔ index.ids.toList = [] := by
  rw [Tracked] at tracked
  rw [tracked]
  constructor
  · intro none
    refine List.eq_nil_iff_forall_not_mem.mpr fun id member => ?_
    obtain ⟨greatest, found, _⟩ := Identity.le_greatest? member
    rw [none] at found
    contradiction
  · intro empty
    rw [empty]
    rfl

theorem Tracked.nextId_eq_ok_iff (tracked : index.Tracked) :
    index.nextId = .ok id ↔ Identity.Next index.ids.toList id.val := by
  refine ⟨tracked.next_of_ok, fun behind => ?_⟩
  cases next : index.nextId with
  | ok start =>
    rw [Fin.ext ((tracked.next_of_ok next).unique behind)]
  | error cause =>
    -- The number behind the last identity is none.
    have beyond := (tracked.next_of_error next).unique behind
    exact absurd id.isLt (Nat.not_lt.mpr (Nat.le_of_eq beyond))

/-- There is no next identity exactly if the last one of all is held. -/
theorem Tracked.nextId_eq_error_iff (tracked : index.Tracked) {cause : TableError} :
    index.nextId = .error cause ↔ cause = .identitiesExhausted index.header ∧
      ∃ id ∈ index.ids.toList, id.val + 1 = Width.count .w64 := by
  constructor
  · intro next
    obtain ⟨greatest, found, last, cause_eq⟩ := nextId_error_iff.mp next
    refine ⟨cause_eq, greatest, (tracked.greatest_eq_some_iff.mp found).1, ?_⟩
    rw [last]
    rfl
  · rintro ⟨rfl, id, held, last⟩
    cases next : index.nextId with
    | ok start =>
      have above : id.val < start.val := tracked.lt_nextId next held
      have bound := start.isLt
      omega
    | error cause =>
      obtain ⟨_, _, _, rfl⟩ := nextId_error_iff.mp next
      rfl

/-! ## Extensions -/

/-- There are identities for a number of new rows: none is asked for, or the last of the consecutive
    ones from the next identity on is in range. -/
def HasRoom (index : IndexColumn) (count : Nat) : Prop :=
  count = 0 ∨ ∃ start, index.nextId = .ok start ∧ start.val + (count - 1) < Width.count .w64

theorem Tracked.extend_of_hasRoom (tracked : index.Tracked) (room : index.HasRoom count) :
    ∃ after next, index.extend count = (.ok (), after) ∧ after.header = index.header ∧
      Identity.Next index.ids.toList next ∧
      after.ids.toList.map (·.val) = index.ids.toList.map (·.val) ++ List.range' next count := by
  have fitting := fitting_extend tracked (Nat.le_add_right index.size count)
  rw [Nat.add_sub_cancel_left] at fitting
  generalize outcome : index.extend count = result at fitting
  cases fitting with
  | fitted header ids =>
    obtain ⟨next, behind, values⟩ := ids
    refine ⟨_, next, rfl, header, behind, ?_⟩
    rw [values, size_eq_length, Nat.add_sub_cancel_left,
      List.take_of_length_le (Nat.le_add_right ..)]
  | exhausted short behind reach =>
    rw [Nat.add_sub_cancel_left] at reach
    rcases room with none | ⟨start, next, bound⟩
    · omega
    · have same := (tracked.next_of_ok next).unique behind
      omega

theorem extend_of_not_hasRoom (crowded : ¬ index.HasRoom count) :
    index.extend count = (.error (.identitiesExhausted index.header), index) := by
  have outcome := extend_extended count index
  generalize index.extend count = result at outcome ⊢
  cases outcome with
  | idle none => exact absurd (.inl none) crowded
  | refused => rfl
  | @extended start last next asked reach =>
    have bound := last.isLt
    exact absurd (.inr ⟨start, next, by omega⟩) crowded

/-- However an index column has come about, the identity that it tracks is the greatest one that it
    holds, the next one is above all of them and is missing only if the last of all is held, and an
    extension appends as many consecutive identities as are asked for or leaves the column as it
    was. -/
theorem nextId_extend_exact (built : index.Built) (count : Nat) :
    (∀ id, index.greatest = some id ↔
      id ∈ index.ids.toList ∧ ∀ other ∈ index.ids.toList, other ≤ id) ∧
    (index.greatest = none ↔ index.ids.toList = []) ∧
    (∀ id, index.nextId = .ok id ↔ Identity.Next index.ids.toList id.val) ∧
    (∀ cause, index.nextId = .error cause ↔ cause = .identitiesExhausted index.header ∧
      ∃ id ∈ index.ids.toList, id.val + 1 = Width.count .w64) ∧
    (index.HasRoom count → ∃ after next, index.extend count = (.ok (), after) ∧
      after.header = index.header ∧ Identity.Next index.ids.toList next ∧
      after.ids.toList.map (·.val) = index.ids.toList.map (·.val) ++ List.range' next count) ∧
    (¬ index.HasRoom count →
      index.extend count = (.error (.identitiesExhausted index.header), index)) := by
  have tracked := built.tracked
  refine ⟨fun _ => tracked.greatest_eq_some_iff, tracked.greatest_eq_none_iff,
    fun _ => tracked.nextId_eq_ok_iff, fun _ => tracked.nextId_eq_error_iff, ?_, ?_⟩
  · exact tracked.extend_of_hasRoom
  · exact extend_of_not_hasRoom

/-- Two identities are left: a row with a lesser one has come behind the greatest so far, and of three
    rows that were to follow none has. -/
def nearlyExhausted : IndexColumn :=
  (((sequential "index" 3).push ⟨0xFFFFFFFFFFFFFFFD, by decide⟩).push ⟨12, by decide⟩ |>.extend 3).2

theorem nextId_extend_exact_last :
    nearlyExhausted.Built ∧
    (∃ id, nearlyExhausted.nextId = .ok id ∧ id.val = 0xFFFFFFFFFFFFFFFE) ∧
    (∃ after, nearlyExhausted.extend 2 = (.ok (), after) ∧ after.ids.toList.map (·.val) =
      [0, 1, 2, 0xFFFFFFFFFFFFFFFD, 12, 0xFFFFFFFFFFFFFFFE, 0xFFFFFFFFFFFFFFFF]) ∧
    nearlyExhausted.extend 3 = (.error (.identitiesExhausted "index"), nearlyExhausted) := by
  have built : nearlyExhausted.Built := (((Built.ofIds _ _).push _).push _).extend 3
  have values : nearlyExhausted.ids.toList.map (·.val) = [0, 1, 2, 0xFFFFFFFFFFFFFFFD, 12] := by
    decide
  obtain ⟨_, _, next, _, extended, _⟩ := nextId_extend_exact built 2
  obtain ⟨_, _, _, _, _, refused⟩ := nextId_extend_exact built 3
  have most : ∀ id ∈ nearlyExhausted.ids.toList, id.val ≤ 0xFFFFFFFFFFFFFFFD := by
    have small : ∀ number ∈ nearlyExhausted.ids.toList.map (·.val), number ≤ 0xFFFFFFFFFFFFFFFD := by
      rw [values]
      decide
    exact fun id member => small id.val (List.mem_map_of_mem member)
  have behind : Identity.Next nearlyExhausted.ids.toList 0xFFFFFFFFFFFFFFFE :=
    .inr ⟨⟨0xFFFFFFFFFFFFFFFD, by decide⟩, by decide +kernel, most, rfl⟩
  have start := (next ⟨0xFFFFFFFFFFFFFFFE, by decide⟩).mpr behind
  refine ⟨built, ⟨_, start, rfl⟩, ?_, refused ?_⟩
  · obtain ⟨after, number, outcome, _, behind', appended⟩ := extended (.inr ⟨_, start, by decide⟩)
    obtain rfl := behind.unique behind'
    exact ⟨after, outcome, by rw [appended, values]; rfl⟩
  · rintro (none | ⟨other, start', fits⟩)
    · exact absurd none (by decide)
    · have same := ((next other).mp start').unique behind
      rw [same, Width.count] at fits
      omega

end IndexColumn

end LinkedTables
