import LinkedTables.Proofs.Construction

/-! # Ranges are never stale

A computed range stands beside the cells that it was computed from, and a range set by hand hides
it without removing it.  So a range of earlier cells could come back when the one set by hand is
taken away.  It does not: whatever opens the cells forgets the computed range first, and all ways to
the cells, through `Column` and through the rows of a frame included, open them. -/

namespace LinkedTables

/-- A range that is known of cells, if one is, is that of the cells. -/
def Buffer.Spans (buffer : Buffer) (known : Option Range) : Prop :=
  ∀ range, known = some range → buffer.extent = some (range.least, range.greatest)

namespace PlainColumn

variable {column next : PlainColumn}

/-- The computed range is that of the present cells. -/
def Current (column : PlainColumn) : Prop :=
  column.buffer.Spans column.computedRange

theorem current_of_none (forgotten : column.computedRange = none) : column.Current := by
  intro range computed
  rw [forgotten] at computed
  contradiction

theorem current_computeRange (column : PlainColumn) : column.computeRange.Current := by
  intro range computed
  obtain ⟨extent, present, rfl⟩ := Option.map_eq_some_iff.mp computed
  exact present

/-- No push leaves a range behind, be the value taken or refused. -/
@[simp] theorem computedRange_push (column : PlainColumn) (value : Value) :
    (column.push value).2.computedRange = none := by
  simp only [push, tryModify]
  cases column.buffer.push? value <;> rfl

theorem Step.current (step : column.Step next) (current : column.Current) : next.Current := by
  -- Whatever may touch the cells drops the range, and nothing else changes what it is about.
  cases step with
  | rename header => exact current
  | computeRange => exact current_computeRange column
  | setCustomRange range => exact current
  | touch => exact current_of_none rfl
  | modify change => exact current_of_none rfl
  | tryModify change =>
    simp only [PlainColumn.tryModify]
    cases change column.buffer <;> exact current_of_none rfl
  | openCells kind =>
    simp only [PlainColumn.openCells]
    split <;> exact current_of_none rfl
  | typed opens cells =>
    simp only [PlainColumn.openCells] at opens
    split at opens
    next =>
      cases opens
      exact current_of_none rfl
    next => cases opens
  | push value => exact current_of_none (computedRange_push column value)
  | pushText text =>
    simp only [PlainColumn.pushText]
    split
    next value _ => exact current_of_none (computedRange_push column value)
    next => exact current

theorem current_run {header : String} {buffer : Buffer}
    (run : Relation.ReflTransGen Step (.ofBuffer header buffer) column) : column.Current := by
  induction run with
  | refl => exact current_of_none rfl
  | tail _ step current => exact step.current current

end PlainColumn

theorem Column.Built.current {column : PlainColumn} (built : (Column.plain column).Built) :
    column.Current := by
  cases built.made with
  | plain run => exact PlainColumn.current_run run

namespace PlainColumn

/-- Wherever a plain column stands and whatever has been done to it: a range that is computed is that
    of the present cells, and so is the one in force unless it is set by hand, also where a range set
    by hand has been taken away.  The range of the present cells is there once it is computed. -/
theorem range_current {column : PlainColumn}
    (built : (Column.plain column).Built ∨
      ∃ frame : Frame, frame.Built ∧ .plain column ∈ frame.columns) :
    column.buffer.Spans column.computedRange ∧
    (∀ custom, column.customRange = some custom → column.range = some custom) ∧
    (column.customRange = none → column.buffer.Spans column.range) ∧
    column.buffer.Spans (column.setCustomRange none).range ∧
    (column.computeRange.setCustomRange none).range.map (fun range =>
      (range.least, range.greatest)) = column.buffer.extent := by
  have made : (Column.plain column).Built := by
    rcases built with built | ⟨frame, built, member⟩
    · exact built
    · exact built.columns _ member
  have current := made.current
  refine ⟨current, fun custom set => ?_, fun unset => ?_, current, ?_⟩
  · rw [range, set]
    rfl
  · rw [range, unset]
    exact current
  · show (column.buffer.extent.map _).map _ = _
    cases column.buffer.extent <;> rfl

/-- Two cells whose range is computed and covered by one set by hand. -/
def covered : PlainColumn :=
  (ofBuffer "count" ⟨.unsigned .w8, #[⟨4, by decide⟩, ⟨1, by decide⟩]⟩).computeRange.setCustomRange
    (some ⟨.ofNatural 0, .ofNatural 255⟩)

/-- A row is appended while the computed range is covered, and the range does not come back. -/
theorem range_current_uncovered :
    covered.computedRange = some ⟨.ofNatural 1, .ofNatural 4⟩ ∧
      ∃ column : PlainColumn,
        (Frame.appendRow ["9"] (Frame.empty.add (.plain covered))).2.columns = [.plain column] ∧
        column.range = some ⟨.ofNatural 0, .ofNatural 255⟩ ∧
        (column.setCustomRange none).range = none ∧
        (column.computeRange.setCustomRange none).range.map (fun range =>
          (range.least, range.greatest)) = some (.ofNatural 1, .ofNatural 9) := by
  have made : (Column.plain covered).Built :=
    ((Column.Built.fresh (.plain _ _)).step (.plain .computeRange)).step (.plain (.setCustomRange _))
  have built := (Frame.Built.empty.add made).appendRow ["9"]
  obtain ⟨_, set, _, _, computed⟩ :=
    range_current (.inr ⟨_, built, List.mem_singleton_self _⟩)
  exact ⟨by decide +kernel, _, rfl, set _ rfl, rfl, computed.trans (by decide +kernel)⟩

end PlainColumn

end LinkedTables
