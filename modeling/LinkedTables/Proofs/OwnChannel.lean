import LinkedTables.Proofs.ChangeTracking
import LinkedTables.Proofs.SharedIdentity

/-! # An operation and its channel

Whatever an operation asks of shared state it asks of one channel of one target.  Its caller is told
whether the identities of that channel changed, the generation of the channel counts the change,
and nothing else moves: what the table of filters does to the union is told by the union alone. -/

namespace LinkedTables

/-- What the caller of an operation is told: whether the identities of the channel changed.  A
    caller who publishes rows is told how many were matched instead. -/
def Operation.answer? : Operation → Manager → Option Bool
  | .publishRows _ _ _ _, _ => none
  | .brushIds link action ids, manager => some (link.brushIds manager action ids).1
  | .clearOwnFilter link, manager => some (link.clearFilter manager).1
  | .selectColumns positions, manager => some (Link.selectColumns manager positions).1
  | .select target ids, manager => some (manager.select target ids).1
  | .highlight target ids, manager => some (manager.highlight target ids).1
  | .filter target source ids, manager => some (manager.filter target source ids).1
  | .clearFilter target source, manager => some (manager.clearFilter target source).1
  | .brush action target source ids, manager => some (manager.brush action target source ids).1

namespace Request

def answer : Request → TargetState → Bool
  | .select _ ids, state => (state.select ids).1
  | .highlight _ ids, state => (state.highlight ids).1
  | .filter _ source ids, state => (state.filter source ids).1
  | .clearFilter _ source, state => (state.clearFilter source).1

/-- The source whose filter a request sets or takes back. -/
def source? : Request → Option String
  | .filter _ source _ | .clearFilter _ source => some source
  | .select _ _ | .highlight _ _ => none

/-- The filter that a request leaves to its source. -/
def filter? : Request → Option IdSet
  | .filter _ _ ids => some ids
  | .clearFilter _ _ | .select _ _ | .highlight _ _ => none

end Request

/-! ## On one target -/

namespace TargetState

variable {state : TargetState}

theorem refresh_answer_iff (filters : List (String × IdSet)) :
    ({ state with filters }.refresh).1 = true ↔
      ({ state with filters }.refresh).2.filtered ≠ state.filtered := by
  simp only [refresh]
  split
  · simp
  next changed => simp [changed]

theorem answer_iff (request : Request) :
    request.answer state = true ↔
      (request.apply state).ids request.action ≠ state.ids request.action := by
  cases request with
  | select target ids =>
    simp only [Request.answer, Request.apply, select]
    split
    · simp
    next changed => simp [Request.action, Ne.symm changed]
  | highlight target ids =>
    simp only [Request.answer, Request.apply, highlight]
    split
    · simp
    next changed => simp [Request.action, Ne.symm changed]
  | filter target source ids =>
    simp only [Request.answer, Request.apply, filter]
    split
    · simp
    · exact refresh_answer_iff _
  | clearFilter target source =>
    simp only [Request.answer, Request.apply, clearFilter]
    split
    · simp
    · exact refresh_answer_iff _

/-- Of the filters a request changes that of its source, and no other. -/
theorem lookup_apply (request : Request) (source : String) :
    (request.apply state).filters.lookup source =
      if request.source? = some source then request.filter? else state.filters.lookup source := by
  cases request with
  | select target ids =>
    simp only [Request.apply, select, Request.source?]
    split <;> rfl
  | highlight target ids =>
    simp only [Request.apply, highlight, Request.source?]
    split <;> rfl
  | filter target other ids =>
    simp only [Request.apply, filter, Request.source?, Request.filter?, Option.some.injEq]
    split
    next known =>
      -- A source that asks for the filter it has already leaves the filters alone.
      split
      next same => rw [← same, known]
      next => rfl
    next =>
      rw [refresh_filters, lookup_putEntry]
      simp only [eq_comm]
  | clearFilter target other =>
    simp only [Request.apply, clearFilter, Request.source?, Request.filter?, Option.some.injEq]
    split
    next absent =>
      split
      next same => rw [← same, absent]
      next => rfl
    next =>
      rw [refresh_filters, lookup_filter_ne]
      simp only [eq_comm]

end TargetState

/-! ## On shared state -/

namespace Operation

variable {operation : Operation} {request : Request} {manager : Manager}

theorem Asks.answer_eq (asks : operation.Asks request) {told : Bool}
    (answered : operation.answer? manager = some told) :
    told = request.answer (manager.state request.target) := by
  cases asks with
  | publishRows => contradiction
  | @selectColumns positions ids held =>
    -- The request holds the identities of the columns, the operation their positions.
    have published : Ascending.ofList (positions.toList.map Link.columnId) = ids :=
      Ascending.ext fun id => mem_columnIds.trans (held id).symm
    simp only [answer?, Link.selectColumns, published, Option.some.injEq] at answered
    exact answered.symm
  | brushIds link action ids =>
    cases action <;> exact (Option.some.inj answered).symm
  | brush action target source ids =>
    cases action <;> exact (Option.some.inj answered).symm
  | clearOwnFilter | select | highlight | filter | clearFilter =>
    exact (Option.some.inj answered).symm

/-- What an operation does to shared state is told to its caller, is counted, and keeps to the
    channel, the target and the source that the operation asks. -/
structure KeepsTo (operation : Operation) (request : Request) (manager : Manager) : Prop where
  told : ∀ answer, operation.answer? manager = some answer →
    (answer = true ↔ (operation.run manager).ids request.action request.target ≠
      manager.ids request.action request.target)
  counted : (operation.run manager).ids request.action request.target ≠
      manager.ids request.action request.target →
    (manager.generation request.action request.target).val + 1 < Width.count .w64 →
    ((operation.run manager).generation request.action request.target).val =
      (manager.generation request.action request.target).val + 1
  uncounted : (operation.run manager).ids request.action request.target =
      manager.ids request.action request.target →
    (operation.run manager).generation request.action request.target =
      manager.generation request.action request.target
  channels : ∀ action target, action ≠ request.action ∨ target ≠ request.target →
    (operation.run manager).ids action target = manager.ids action target ∧
    (operation.run manager).generation action target = manager.generation action target
  filters : ∀ target source, (operation.run manager).filteredBy target source =
    if target = request.target ∧ request.source? = some source then request.filter?
    else manager.filteredBy target source

theorem generation_run (operation : Operation) (manager : Manager) (action : Action)
    (target : Target) :
    (operation.run manager).generation action target =
      if (operation.run manager).ids action target = manager.ids action target
      then manager.generation action target else (manager.generation action target).next :=
  operation.tracks_run manager target action

theorem Asks.ids_run (asks : operation.Asks request) {action : Action} {target : Target}
    (other : action ≠ request.action ∨ target ≠ request.target) :
    (operation.run manager).ids action target = manager.ids action target := by
  rw [asks.run_eq, Manager.ids, Manager.ids, request.state_run]
  split
  next here => exact TargetState.ids_apply (other.resolve_right (not_not.mpr here)).symm
  next => rfl

theorem Asks.filteredBy_run (asks : operation.Asks request) (target : Target) (source : String) :
    (operation.run manager).filteredBy target source =
      if target = request.target ∧ request.source? = some source then request.filter?
      else manager.filteredBy target source := by
  rw [asks.run_eq, Manager.filteredBy, Manager.filteredBy, request.state_run]
  by_cases here : target = request.target
  · simp only [here, if_true, true_and]
    exact TargetState.lookup_apply request source
  · simp only [here, if_false, false_and]

theorem Asks.keepsTo (asks : operation.Asks request) (manager : Manager) :
    operation.KeepsTo request manager where
  told answer answered := by
    rw [asks.answer_eq answered, asks.run_eq, Manager.ids, request.state_run, if_pos rfl]
    exact TargetState.answer_iff request
  counted changed room := by
    rw [generation_run, if_neg changed, Generation.next]
    exact Nat.mod_eq_of_lt room
  uncounted same := by
    rw [generation_run, if_pos same]
  channels action target other := by
    have same : (operation.run manager).ids action target = manager.ids action target :=
      asks.ids_run other
    refine ⟨same, ?_⟩
    rw [generation_run, if_pos same]
  filters := asks.filteredBy_run

end Operation

/-! ## A run -/

namespace Manager

/-- After any run, what is filtered out on a target is what the present filters hold together. -/
theorem mem_filtered_after (history : List Operation) (target : Target) (id : Identity) :
    id ∈ (initial.after history).ids .filter target ↔
      ∃ source ids, (initial.after history).filteredBy target source = some ids ∧ id ∈ ids := by
  have holds := holds_after history target
  have union : (initial.after history).ids .filter target =
      TargetState.union ((initial.after history).state target).filters := holds.union_eq
  rw [union]
  exact TargetState.mem_union_iff holds.sources

/-- In every state that a run leads to, what is filtered out is the union of the filters of all
    sources; and whatever an operation asks there, its answer and the generation tell whether the
    identities of its channel changed, and nothing changes but this channel of this target and, of
    the filters, that of the source named. -/
theorem operation_keeps_to_channel (history : List Operation) :
    (∀ target id, id ∈ (initial.after history).ids .filter target ↔
      ∃ source ids, (initial.after history).filteredBy target source = some ids ∧ id ∈ ids) ∧
    ∀ (operation : Operation) (request : Request), operation.Asks request →
      operation.KeepsTo request (initial.after history) :=
  ⟨mem_filtered_after history, fun _ _ asks => asks.keepsTo _⟩

/-- A second filter that hides behind the first changes nothing that shows; one that does not is
    told and counted. -/
theorem operation_keeps_to_channel_second_filter :
    ((initial.after [.filter .row "plot" (.ofList [⟨1, by decide⟩, ⟨2, by decide⟩])]).brush
      .filter .row "table" (.ofList [⟨1, by decide⟩])).1 = false ∧
    ((initial.after [.filter .row "plot" (.ofList [⟨1, by decide⟩, ⟨2, by decide⟩])]).brush
      .filter .row "table" (.ofList [⟨3, by decide⟩])).1 = true ∧
    (((initial.after [.filter .row "plot" (.ofList [⟨1, by decide⟩, ⟨2, by decide⟩])]).brush
      .filter .row "table" (.ofList [⟨3, by decide⟩])).2.generation .filter .row).val = 2 := by
  have keeps := fun ids => (operation_keeps_to_channel
    [.filter .row "plot" (.ofList [⟨1, by decide⟩, ⟨2, by decide⟩])]).2 _ _
    (.brush .filter .row "table" ids)
  refine ⟨?_, ?_, ?_⟩
  · rw [← Bool.not_eq_true, (keeps (.ofList [⟨1, by decide⟩])).told _ rfl]
    decide
  · exact ((keeps (.ofList [⟨3, by decide⟩])).told _ rfl).mpr (by decide)
  · exact (keeps (.ofList [⟨3, by decide⟩])).counted (by decide) (by decide)

end Manager

end LinkedTables
