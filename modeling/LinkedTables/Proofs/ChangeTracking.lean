import LinkedTables.Proofs.Operations

/-! # What a link notices

A link compares generations, not identities.  That this comes to the same rests on one fact about
a step: the generation of a channel moves exactly if the identities of the channel change.  Over a
run the generation then counts the changes, and a count below `2 ^ 64` does not come back to where
it started. -/

namespace LinkedTables

/-! ## One step -/

/-- The generation of each channel moves exactly if the identities of the channel change. -/
def TargetState.Tracks (before after : TargetState) : Prop :=
  ∀ action, after.generations.of action =
    if after.ids action = before.ids action then before.generations.of action
    else (before.generations.of action).next

namespace TargetState

variable {state : TargetState}

theorem Tracks.refl (state : TargetState) : state.Tracks state := by
  intro action
  simp

theorem tracks_select (ids : IdSet) : state.Tracks (state.select ids).2 := by
  simp only [select]
  split
  · exact .refl state
  next changed =>
    intro action
    cases action with
    | select => simp [Ne.symm changed]
    | filter | highlight => simp

theorem tracks_highlight (ids : IdSet) : state.Tracks (state.highlight ids).2 := by
  simp only [highlight]
  split
  · exact .refl state
  next changed =>
    intro action
    cases action with
    | highlight => simp [Ne.symm changed]
    | filter | select => simp

/-- Filters may change without their union; then no generation moves. -/
theorem tracks_refresh (filters : List (String × IdSet)) :
    state.Tracks ({ state with filters }.refresh).2 := by
  simp only [refresh]
  split
  · exact Tracks.refl state
  next changed =>
    intro action
    cases action with
    | filter => simp [changed]
    | select | highlight => simp

theorem tracks_apply (request : Request) : state.Tracks (request.apply state) := by
  cases request with
  | select target ids => exact tracks_select ids
  | highlight target ids => exact tracks_highlight ids
  | filter target source ids =>
    simp only [Request.apply, filter]
    split
    · exact .refl state
    · exact tracks_refresh _
  | clearFilter target source =>
    simp only [Request.apply, clearFilter]
    split
    · exact .refl state
    · exact tracks_refresh _

theorem ids_refresh {action : Action} (other : action ≠ .filter) (filters : List (String × IdSet)) :
    ({ state with filters }.refresh).2.ids action = state.ids action := by
  simp only [refresh]
  cases action with
  | filter => contradiction
  | select | highlight => split <;> rfl

theorem ids_apply {request : Request} {action : Action} (other : request.action ≠ action) :
    (request.apply state).ids action = state.ids action := by
  cases request with
  | select target ids =>
    simp only [Request.apply, select]
    cases action with
    | select => contradiction
    | filter | highlight => split <;> rfl
  | highlight target ids =>
    simp only [Request.apply, highlight]
    cases action with
    | highlight => contradiction
    | filter | select => split <;> rfl
  | filter target source ids =>
    simp only [Request.apply, filter]
    split
    · rfl
    · exact ids_refresh (Ne.symm other) _
  | clearFilter target source =>
    simp only [Request.apply, clearFilter]
    split
    · rfl
    · exact ids_refresh (Ne.symm other) _

theorem filtered_apply {request : Request}
    (union_eq : union (request.apply state).filters = state.filtered) :
    (request.apply state).filtered = state.filtered := by
  -- The union is stored only where it differs from the one that is stored.
  have refreshed : ∀ filters, union ({ state with filters }.refresh).2.filters = state.filtered →
      ({ state with filters }.refresh).2.filtered = state.filtered := by
    intro filters same
    simp only [refresh] at same ⊢
    split
    · rfl
    next changed => simp [changed] at same
  cases request with
  | select target ids =>
    simp only [Request.apply, select]
    split <;> rfl
  | highlight target ids =>
    simp only [Request.apply, highlight]
    split <;> rfl
  | filter target source ids =>
    simp only [Request.apply, filter] at union_eq ⊢
    split at union_eq
    next known => rw [if_pos known]
    next new =>
      rw [if_neg new]
      exact refreshed _ union_eq
  | clearFilter target source =>
    simp only [Request.apply, clearFilter] at union_eq ⊢
    split at union_eq
    · rfl
    · exact refreshed _ union_eq

end TargetState

namespace Operation

variable {operation : Operation} {manager : Manager} {action : Action} {target : Target}

theorem tracks_run (operation : Operation) (manager : Manager) (target : Target) :
    (manager.state target).Tracks ((operation.run manager).state target) := by
  rcases operation.asks_or_idle with ⟨request, asks⟩ | ⟨_, idle⟩
  · rw [asks.run_eq, request.state_run]
    split
    · exact TargetState.tracks_apply request
    · exact .refl _
  · rw [idle]
    exact .refl _

/-- An operation that a channel does not show: it asks nothing of this channel, it publishes what is
    published already, or it changes filters but not their union. -/
inductive Quiet (target : Target) (manager : Manager) (operation : Operation) : Action → Prop where
  | elsewhere {action : Action} (away : ∀ request, operation.Asks request →
      request.target ≠ target ∨ request.action ≠ action) : Quiet target manager operation action
  | selectedAgain (again : operation.Asks (.select target (manager.ids .select target))) :
      Quiet target manager operation .select
  | highlightedAgain (again : operation.Asks (.highlight target (manager.ids .highlight target))) :
      Quiet target manager operation .highlight
  | hidden (union_eq : TargetState.union ((operation.run manager).state target).filters =
      manager.ids .filter target) : Quiet target manager operation .filter

theorem Quiet.ids_run (quiet : Quiet target manager operation action) :
    (operation.run manager).ids action target = manager.ids action target := by
  cases quiet with
  | elsewhere away =>
    rcases operation.asks_or_idle with ⟨request, asks⟩ | ⟨_, idle⟩
    · rw [asks.run_eq, Manager.ids, Manager.ids, request.state_run]
      split
      next same =>
        rcases away request asks with far | other
        · exact absurd same.symm far
        · exact TargetState.ids_apply other
      next => rfl
    · rw [idle]
  | selectedAgain again =>
    rw [again.run_eq, Manager.ids, Request.state_run]
    simp [Request.target, Request.apply, TargetState.select, Manager.ids]
  | highlightedAgain again =>
    rw [again.run_eq, Manager.ids, Request.state_run]
    simp [Request.target, Request.apply, TargetState.highlight, Manager.ids]
  | hidden union_eq =>
    rcases operation.asks_or_idle with ⟨request, asks⟩ | ⟨_, idle⟩
    · -- The filters themselves may have changed, but what is published is their union.
      rw [asks.run_eq, request.state_run] at union_eq
      rw [asks.run_eq, Manager.ids, request.state_run]
      split
      next same =>
        rw [if_pos same] at union_eq
        exact TargetState.filtered_apply union_eq
      next => rfl
    · rw [idle]

end Operation

/-! ## A run -/

namespace Manager

variable {manager : Manager} {action : Action} {target : Target} {operations : List Operation}

def Changes (action : Action) (target : Target) (operation : Operation) (manager : Manager) : Prop :=
  (operation.run manager).ids action target ≠ manager.ids action target

instance : Decidable (Changes action target operation manager) :=
  inferInstanceAs (Decidable (_ ≠ _))

/-- How many operations of a run change the identities of a channel. -/
def changes (action : Action) (target : Target) (manager : Manager) : List Operation → Nat
  | [] => 0
  | operation :: operations =>
    (if Changes action target operation manager then 1 else 0)
      + changes action target (operation.run manager) operations

theorem changes_le_length : changes action target manager operations ≤ operations.length := by
  induction operations generalizing manager with
  | nil => exact Nat.le_refl 0
  | cons operation operations inductionHypothesis =>
    have rest : changes action target (operation.run manager) operations ≤ operations.length :=
      inductionHypothesis
    simp only [changes, List.length_cons]
    split <;> omega

/-- The generation of a channel counts the changes, modulo the size of a word. -/
theorem generation_after (action : Action) (target : Target) (manager : Manager)
    (operations : List Operation) :
    ((manager.after operations).generation action target).val =
      ((manager.generation action target).val + changes action target manager operations)
        % Width.count .w64 := by
  induction operations generalizing manager with
  | nil => exact (Nat.mod_eq_of_lt (manager.generation action target).isLt).symm
  | cons operation operations inductionHypothesis =>
    -- One operation moves the generation on by one or leaves it, and the rest count from there.
    have step := operation.tracks_run manager target action
    have unfolded : manager.after (operation :: operations) =
        (operation.run manager).after operations := rfl
    rw [unfolded, inductionHypothesis, generation, step, changes]
    by_cases changed : Changes action target operation manager
    · have different : ((operation.run manager).state target).ids action ≠
        (manager.state target).ids action := changed
      rw [if_neg different, if_pos changed, Generation.next, Nat.mod_add_mod, Nat.add_assoc]
      rfl
    · have same : ((operation.run manager).state target).ids action =
        (manager.state target).ids action := not_not.mp changed
      rw [if_pos same, if_neg changed, Nat.zero_add]
      rfl

theorem changes_pos_iff : 0 < changes action target manager operations ↔
    ∃ before operation after, operations = before ++ operation :: after ∧
      Changes action target operation (manager.after before) := by
  induction operations generalizing manager with
  | nil => simp [changes]
  | cons operation operations inductionHypothesis =>
    rw [changes]
    constructor
    · intro positive
      by_cases first : Changes action target operation manager
      · exact ⟨[], operation, operations, rfl, first⟩
      · rw [if_neg first, Nat.zero_add] at positive
        obtain ⟨before, later, after, split, changed⟩ := inductionHypothesis.mp positive
        exact ⟨operation :: before, later, after, by rw [split]; rfl, changed⟩
    · rintro ⟨before, later, after, split, changed⟩
      cases before with
      | nil =>
        simp only [List.nil_append, List.cons.injEq] at split
        have first : Changes action target operation manager := by
          rw [split.1]
          exact changed
        rw [if_pos first]
        omega
      | cons head before =>
        simp only [List.cons_append, List.cons.injEq] at split
        obtain ⟨rfl, split⟩ := split
        have rest : 0 < changes action target (operation.run manager) operations :=
          inductionHypothesis.mpr ⟨before, later, after, split, changed⟩
        omega

/-- Without a change the identities are those from before the run. -/
theorem ids_after (unchanged : changes action target manager operations = 0) :
    (manager.after operations).ids action target = manager.ids action target := by
  induction operations generalizing manager with
  | nil => rfl
  | cons operation operations inductionHypothesis =>
    rw [changes] at unchanged
    have first : ¬ Changes action target operation manager := by
      intro changed
      rw [if_pos changed] at unchanged
      omega
    have rest : ((operation.run manager).after operations).ids action target =
        (operation.run manager).ids action target := inductionHypothesis (by omega)
    exact rest.trans (not_not.mp first)

end Manager

/-! ## A link -/

namespace Link

variable {link : Link} {manager : Manager}

/-- A link has handled all that was published: it is new, and so is shared state, or it has just
    been synchronised. -/
inductive CaughtUp : Link → Manager → Prop where
  | created (source : String) (target : Target) : CaughtUp (.onTarget source target) .initial
  | synced (link : Link) (manager : Manager) : CaughtUp (link.sync manager) manager

@[simp] theorem seen_sync (link : Link) (manager : Manager) (action : Action) :
    (link.sync manager).seen.of action = manager.generation action link.target := by
  cases action <;> rfl

theorem CaughtUp.seen_eq (caughtUp : CaughtUp link manager) (action : Action) :
    link.seen.of action = manager.generation action link.target := by
  cases caughtUp with
  | created source target => cases action <;> rfl
  | synced link manager => exact seen_sync link manager action

/-- A flag is down exactly if the generation has come round to where it was. -/
theorem CaughtUp.isModified_eq_false_iff (caughtUp : CaughtUp link manager)
    (operations : List Operation) (action : Action) :
    link.isModified (manager.after operations) action = false ↔
      Width.count .w64 ∣ manager.changes action link.target operations := by
  have counted := manager.generation_after action link.target operations
  have bound : (manager.generation action link.target).val < 18446744073709551616 :=
    (manager.generation action link.target).isLt
  have word : Width.count .w64 = 18446744073709551616 := rfl
  rw [isModified, bne_eq_false_iff_eq, caughtUp.seen_eq, Fin.ext_iff, counted]
  generalize (manager.generation action link.target).val = start at bound ⊢
  rw [word]
  omega

/-- A flag is raised exactly if a run too short for a word to come round has a change in it. -/
theorem CaughtUp.isModified_iff (caughtUp : CaughtUp link manager) {operations : List Operation}
    (short : operations.length < Width.count .w64) (action : Action) :
    link.isModified (manager.after operations) action = true ↔
      0 < manager.changes action link.target operations := by
  have few : manager.changes action link.target operations < Width.count .w64 :=
    Nat.lt_of_le_of_lt Manager.changes_le_length short
  rw [← Bool.not_eq_false, caughtUp.isModified_eq_false_iff]
  constructor
  · intro moved
    by_contra none
    exact moved (by rw [Nat.eq_zero_of_not_pos none]; exact Nat.dvd_zero _)
  · intro positive round
    exact absurd (Nat.le_of_dvd positive round) (Nat.not_le_of_lt few)

/-- A link that has handled everything notices exactly the operations that change a channel of its
    target.  While a flag is down the channel holds what it held, and every table shows the same
    rows of it; quiet operations raise no flag, and synchronising lowers all. -/
theorem isModified_iff_changes (link : Link) (manager : Manager) (operations : List Operation)
    (caughtUp : CaughtUp link manager) (short : operations.length < Width.count .w64) :
    (∀ action, link.isModified (manager.after operations) action = true ↔
      ∃ before operation after, operations = before ++ operation :: after ∧
        (operation.run (manager.after before)).ids action link.target ≠
          (manager.after before).ids action link.target) ∧
    (∀ action, link.isModified (manager.after operations) action = false →
      (manager.after operations).ids action link.target = manager.ids action link.target ∧
      (action = .select → ∀ frame, link.selectedRows (manager.after operations) frame =
        link.selectedRows manager frame) ∧
      (action = .highlight → ∀ frame, link.highlightedRows (manager.after operations) frame =
        link.highlightedRows manager frame) ∧
      (action = .filter → ∀ frame, link.remainingRows (manager.after operations) frame =
        link.remainingRows manager frame)) ∧
    (∀ action, (∀ before operation after, operations = before ++ operation :: after →
        operation.Quiet link.target (manager.after before) action) →
      link.isModified (manager.after operations) action = false) ∧
    ∀ (now : Manager) (action : Action), (link.sync now).isModified now action = false := by
  -- Too few operations have run for the word to come round, so a flag is up just if one of them
  -- has changed its channel.
  have raised : ∀ action, link.isModified (manager.after operations) action = true ↔
      0 < manager.changes action link.target operations :=
    fun action => caughtUp.isModified_iff short action
  refine ⟨?_, ?_, ?_, ?_⟩
  · intro action
    exact (raised action).trans Manager.changes_pos_iff
  · intro action down
    have unchanged : manager.changes action link.target operations = 0 := by
      by_contra some
      rw [(raised action).mpr (by omega)] at down
      contradiction
    have same := Manager.ids_after unchanged
    refine ⟨same, ?_, ?_, ?_⟩
    · rintro rfl frame
      simp only [selectedRows, publishedRows, same]
    · rintro rfl frame
      simp only [highlightedRows, publishedRows, same]
    · rintro rfl frame
      simp only [remainingRows, same]
  · intro action quiet
    by_contra up
    rw [Bool.not_eq_false, raised, Manager.changes_pos_iff] at up
    obtain ⟨before, operation, after, split, changed⟩ := up
    exact changed (quiet before operation after split).ids_run
  · intro now action
    rw [isModified, seen_sync]
    exact bne_self_eq_false _

/-- A second filter is noticed if it filters out something new, and not if it hides behind the
    first. -/
theorem isModified_second_filter :
    ((onTarget "table" .row).sync
      (Manager.initial.after [.filter .row "plot" (.ofList [⟨1, by decide⟩, ⟨2, by decide⟩])])).isModified
        ((Manager.initial.after [.filter .row "plot" (.ofList [⟨1, by decide⟩, ⟨2, by decide⟩])]).after
          [.filter .row "table" (.ofList [⟨1, by decide⟩])]) .filter = false ∧
    ((onTarget "table" .row).sync
      (Manager.initial.after [.filter .row "plot" (.ofList [⟨1, by decide⟩, ⟨2, by decide⟩])])).isModified
        ((Manager.initial.after [.filter .row "plot" (.ofList [⟨1, by decide⟩, ⟨2, by decide⟩])]).after
          [.filter .row "table" (.ofList [⟨3, by decide⟩])]) .filter = true := by
  constructor
  · refine (isModified_iff_changes _ _ _ (.synced _ _) (by decide)).2.2.1 .filter ?_
    intro before operation after split
    cases before with
    | nil =>
      obtain ⟨rfl, rfl⟩ : _ ∧ _ := by simpa using split.symm
      exact .hidden (by decide)
    | cons head before => simp at split
  · refine ((isModified_iff_changes _ _ _ (.synced _ _) (by decide)).1 .filter).mpr ?_
    exact ⟨[], _, [], rfl, by decide⟩

/-! ## Columns

Every link reads the selection of columns from the target for columns, and every link compares the
generations of its own target.  So a view that is to notice columns keeps a link on that target. -/

theorem selectedColumns_after {manager : Manager} {operations : List Operation}
    (unchanged : manager.changes .select .column operations = 0) (frame : Frame) :
    selectedColumns (manager.after operations) frame = selectedColumns manager frame := by
  simp only [selectedColumns, Manager.ids_after unchanged]

/-- What is asked of other targets raises no flag of a link. -/
theorem CaughtUp.unmodified_elsewhere {link : Link} {manager : Manager}
    (caughtUp : CaughtUp link manager) {operations : List Operation}
    (elsewhere : ∀ operation ∈ operations, ∀ request, operation.Asks request →
      request.target ≠ link.target) (action : Action) :
    link.isModified (manager.after operations) action = false := by
  have unchanged : manager.changes action link.target operations = 0 := by
    by_contra some
    obtain ⟨before, operation, after, split, changed⟩ :=
      Manager.changes_pos_iff.mp (Nat.pos_of_ne_zero some)
    have member : operation ∈ operations := by simp [split]
    exact changed (Operation.Quiet.elsewhere fun request asks =>
      .inl (elsewhere operation member request asks)).ids_run
  rw [caughtUp.isModified_eq_false_iff, unchanged]
  exact Nat.dvd_zero _

/-- A link on the target for columns notices when other columns are selected, unless its word has
    come round.  A link on any other target does not, whatever is asked about columns. -/
theorem columns_noticed_on_own_target (link : Link) (manager : Manager)
    (operations : List Operation) (caughtUp : CaughtUp link manager) :
    (link.target = .column → ∀ frame,
      selectedColumns (manager.after operations) frame ≠ selectedColumns manager frame →
      link.isModified (manager.after operations) .select = true ∨
        ∃ rounds, 0 < rounds ∧
          manager.changes .select .column operations = Width.count .w64 * rounds) ∧
    (link.target ≠ .column →
      (∀ operation ∈ operations, ∀ request, operation.Asks request → request.target = .column) →
      ∀ action, link.isModified (manager.after operations) action = false) := by
  constructor
  · intro own frame different
    have changed : 0 < manager.changes .select .column operations := by
      by_contra none
      exact different (selectedColumns_after (Nat.eq_zero_of_not_pos none) frame)
    cases flag : link.isModified (manager.after operations) .select with
    | true => exact .inl rfl
    | false =>
      -- A flag is down where the changes counted are a multiple of the range of the word.
      have round := (caughtUp.isModified_eq_false_iff operations .select).mp flag
      rw [own] at round
      obtain ⟨rounds, counted⟩ := round
      refine .inr ⟨rounds, ?_, counted⟩
      by_contra none
      rw [Nat.eq_zero_of_not_pos none, Nat.mul_zero] at counted
      omega
  · intro other onColumns action
    exact caughtUp.unmodified_elsewhere
      (fun operation member request asks same =>
        other (same.symm.trans (onColumns operation member request asks))) action

/-- Of two links of one view, the one on columns notices that a column is selected. -/
theorem columns_noticed_beside_rows :
    ((onTarget "table" .column).isModified
        (Manager.initial.after [.selectColumns (.ofList [⟨0, by decide⟩])]) .select = true ∨
      ∃ rounds, 0 < rounds ∧ Manager.initial.changes .select .column
        [.selectColumns (.ofList [⟨0, by decide⟩])] = Width.count .w64 * rounds) ∧
    (onRows "table").isModified
      (Manager.initial.after [.selectColumns (.ofList [⟨0, by decide⟩])]) .select = false := by
  constructor
  · refine (columns_noticed_on_own_target _ _ _ (.created "table" .column)).1 rfl (.ofSize 1) ?_
    decide
  · refine (columns_noticed_on_own_target _ _ _ (.created "table" .row)).2 (by decide) ?_ .select
    intro operation member request asks
    obtain rfl := List.mem_singleton.mp member
    cases asks with
    | selectColumns held => rfl

/-- A link on rows reads that a column is selected and has no flag for it. -/
theorem columns_unnoticed_on_rows :
    ¬ ∀ (link : Link) (manager : Manager) (operations : List Operation) (frame : Frame),
      CaughtUp link manager →
      selectedColumns (manager.after operations) frame ≠ selectedColumns manager frame →
      link.isModified (manager.after operations) .select = true := by
  intro noticed
  have flag := noticed ((onRows "table").sync .initial) .initial
    [.selectColumns (.ofList [⟨0, by decide⟩])] (.ofSize 1) (.synced _ _) (by decide)
  exact absurd flag (by decide)

end Link

end LinkedTables
