import LinkedTables.Frame.Growth

/-! # Numbering the rows

A frame without an index column gets one whose identities are the row numbers.  Identities are
bounded, row numbers are not: rows past the last identity are not named. -/

namespace LinkedTables

namespace IndexColumn

theorem consecutive_values (start count : Nat) :
    (consecutive start count).map (·.val) =
      List.range' start (min count (Width.count .w64 - start)) := by
  induction count generalizing start with
  | zero => simp [consecutive]
  | succ count inductionHypothesis =>
    have rest := inductionHypothesis (start + 1)
    simp only [consecutive] at rest ⊢
    rw [List.range'_succ, List.filterMap_cons]
    by_cases bound : start < Width.count .w64
    case pos =>
      have more : min (count + 1) (Width.count .w64 - start) =
          min count (Width.count .w64 - (start + 1)) + 1 := by omega
      rw [dif_pos bound, List.map_cons, rest, more, List.range'_succ]
    case neg =>
      -- No identity is left, neither for this row nor for those behind it.
      have beyond : Width.count .w64 - start = 0 := by omega
      have beyond' : Width.count .w64 - (start + 1) = 0 := by omega
      rw [dif_neg bound, rest, beyond, beyond', Nat.min_zero, Nat.min_zero]
      rfl

theorem sequential_values (header : String) (count : Nat) :
    (sequential header count).ids.toList.map (·.val) =
      List.range (min count (Width.count .w64)) := by
  simp only [sequential, ofIds]
  rw [consecutive_values, Nat.sub_zero, List.range_eq_range']

end IndexColumn

namespace Frame

theorem foldl_size {columns : List Column} {rows start : Nat}
    (even : ∀ column ∈ columns, column.size = rows) (below : start ≤ rows) :
    columns.foldl (fun most column => Nat.max most column.size) start =
      if columns = [] then start else rows := by
  induction columns generalizing start with
  | nil => rfl
  | cons column columns inductionHypothesis =>
    have size := even column (by simp)
    have most : Nat.max start column.size = rows := by
      rw [size]
      exact Nat.max_eq_right below
    rw [List.foldl_cons, most, inductionHypothesis
      (fun column' member => even column' (List.mem_cons_of_mem _ member)) (Nat.le_refl rows)]
    simp

theorem longest_eq {columns : List Column} {rows : Nat}
    (even : ∀ column ∈ columns, column.size = rows) (bare : columns = [] → rows = 0) :
    longest columns = rows := by
  rw [longest, foldl_size even (Nat.zero_le rows)]
  split
  next empty => exact (bare empty).symm
  next => rfl

/-- A frame without an index column gets one in front, as long as its longest column. -/
theorem updateIndex_of_no_index {frame : Frame}
    (plain : ∀ column ∈ frame.columns, column.isIndex = false) :
    frame.updateIndex =
      (.ok (), ⟨.index (.sequential indexHeader frame.rows) :: frame.columns⟩) := by
  have absent : frame.columns.any Column.isIndex = false :=
    List.any_eq_false.mpr fun column member => by simp [plain column member]
  have whole : frame.columns.filter (!·.isIndex) = frame.columns :=
    List.filter_eq_self.mpr fun column member => by simp [plain column member]
  simp [updateIndex, absent, whole, rows]

end Frame

end LinkedTables
