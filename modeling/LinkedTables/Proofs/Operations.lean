import LinkedTables.Brushing.Link
import LinkedTables.Proofs.RowMatching

/-! # Operations on shared state

Views act on shared state through their links, other callers act on it directly.  Whatever an
`Operation` is, it asks at most one of four things of shared state, and only of one target.
`Operation.Asks` states what an operation asks in terms of what its caller gives, so a step is
judged by a `Request` alone, and a run by the requests that its operations ask. -/

namespace LinkedTables

/-- A call that can change shared state, by a link or by a direct caller. -/
inductive Operation where
  | publishRows (link : Link) (action : Action) (frame : Frame) (rows : RowSet)
  | brushIds (link : Link) (action : Action) (ids : IdSet)
  | clearOwnFilter (link : Link)
  | selectColumns (positions : RowSet)
  | select (target : Target) (ids : IdSet)
  | highlight (target : Target) (ids : IdSet)
  | filter (target : Target) (source : String) (ids : IdSet)
  | clearFilter (target : Target) (source : String)
  | brush (action : Action) (target : Target) (source : String) (ids : IdSet)

/-- The state that an operation leaves behind. -/
def Operation.run : Operation → Manager → Manager
  | .publishRows link action frame rows, manager => (link.publishRows manager action frame rows).2
  | .brushIds link action ids, manager => (link.brushIds manager action ids).2
  | .clearOwnFilter link, manager => (link.clearFilter manager).2
  | .selectColumns positions, manager => (Link.selectColumns manager positions).2
  | .select target ids, manager => (manager.select target ids).2
  | .highlight target ids, manager => (manager.highlight target ids).2
  | .filter target source ids, manager => (manager.filter target source ids).2
  | .clearFilter target source, manager => (manager.clearFilter target source).2
  | .brush action target source ids, manager => (manager.brush action target source ids).2

/-- The state that operations leave behind, one after the other. -/
def Manager.after (manager : Manager) (operations : List Operation) : Manager :=
  operations.foldl (fun manager operation => operation.run manager) manager

/-- What can be asked of shared state. -/
inductive Request where
  | select (target : Target) (ids : IdSet)
  | highlight (target : Target) (ids : IdSet)
  | filter (target : Target) (source : String) (ids : IdSet)
  | clearFilter (target : Target) (source : String)

namespace Request

/-- The request to publish identities on a channel; only filters are kept by source. -/
def publish (target : Target) (source : String) (ids : IdSet) : Action → Request
  | .filter => .filter target source ids
  | .select => .select target ids
  | .highlight => .highlight target ids

def target : Request → Target
  | .select target _ | .highlight target _ | .filter target _ _ | .clearFilter target _ => target

def action : Request → Action
  | .select _ _ => .select
  | .highlight _ _ => .highlight
  | .filter _ _ _ | .clearFilter _ _ => .filter

/-- What a request makes of the state of its target. -/
def apply : Request → TargetState → TargetState
  | .select _ ids, state => (state.select ids).2
  | .highlight _ ids, state => (state.highlight ids).2
  | .filter _ source ids, state => (state.filter source ids).2
  | .clearFilter _ source, state => (state.clearFilter source).2

def run (request : Request) (manager : Manager) : Manager :=
  (manager.edit request.target fun state => (true, request.apply state)).2

end Request

/-- What an operation asks of shared state.  Rows are asked for by the identities that the column
    naming the rows holds there; rows that do not exist have none. -/
inductive Operation.Asks : Operation → Request → Prop where
  | publishRows (link : Link) (action : Action) {frame : Frame} {rows : RowSet}
      {index : IndexColumn} {ids : IdSet} (named : frame.index? = some index)
      (held : ∀ id, id ∈ ids ↔ ∃ row ∈ rows, index.ids[row.val]? = some id) :
      Asks (.publishRows link action frame rows) (.publish link.target link.source ids action)
  | brushIds (link : Link) (action : Action) (ids : IdSet) :
      Asks (.brushIds link action ids) (.publish link.target link.source ids action)
  | clearOwnFilter (link : Link) :
      Asks (.clearOwnFilter link) (.clearFilter link.target link.source)
  | selectColumns {positions : RowSet} {ids : IdSet}
      (held : ∀ id, id ∈ ids ↔ ∃ position ∈ positions, id.val = position.val) :
      Asks (.selectColumns positions) (.select .column ids)
  | select (target : Target) (ids : IdSet) : Asks (.select target ids) (.select target ids)
  | highlight (target : Target) (ids : IdSet) :
      Asks (.highlight target ids) (.highlight target ids)
  | filter (target : Target) (source : String) (ids : IdSet) :
      Asks (.filter target source ids) (.filter target source ids)
  | clearFilter (target : Target) (source : String) :
      Asks (.clearFilter target source) (.clearFilter target source)
  | brush (action : Action) (target : Target) (source : String) (ids : IdSet) :
      Asks (.brush action target source ids) (.publish target source ids action)

/-! ## What an operation comes to -/

namespace Operation

variable {operation : Operation} {request : Request} {manager : Manager}

theorem brush_eq (action : Action) (target : Target) (source : String) (ids : IdSet) :
    (manager.brush action target source ids).2 =
      (Request.publish target source ids action).run manager := by
  cases action <;> rfl

theorem mem_columnIds {positions : RowSet} {id : Identity} :
    id ∈ Ascending.ofList (positions.toList.map Link.columnId) ↔
      ∃ position ∈ positions, id.val = position.val := by
  rw [Ascending.mem_ofList, List.mem_map]
  constructor
  · rintro ⟨position, member, rfl⟩
    exact ⟨position, member, rfl⟩
  · rintro ⟨position, member, value⟩
    exact ⟨position, member, Fin.ext value.symm⟩

theorem Asks.run_eq (asks : operation.Asks request) : operation.run manager = request.run manager := by
  cases asks with
  | @publishRows link action frame rows index ids named held =>
    have published : (index.idsOf rows).1 = ids :=
      Ascending.ext fun id => IndexColumn.mem_idsOf.trans (held id).symm
    simp only [run, Link.publishRows, named, published]
    exact brush_eq ..
  | brushIds link action ids => exact brush_eq ..
  | @selectColumns positions ids held =>
    have published : Ascending.ofList (positions.toList.map Link.columnId) = ids :=
      Ascending.ext fun id => mem_columnIds.trans (held id).symm
    simp only [run, Link.selectColumns, published]
    rfl
  | brush action target source ids => exact brush_eq ..
  | clearOwnFilter link => rfl
  | select target ids => rfl
  | highlight target ids => rfl
  | filter target source ids => rfl
  | clearFilter target source => rfl

/-- An operation asks something, or else it leaves shared state alone: rows are published of a
    table that has no column naming them. -/
theorem asks_or_idle (operation : Operation) :
    (∃ request, operation.Asks request) ∨
      (∀ request, ¬ operation.Asks request) ∧ ∀ manager, operation.run manager = manager := by
  cases operation with
  | publishRows link action frame rows =>
    cases named : frame.index? with
    | some index => exact .inl ⟨_, .publishRows link action named fun id => IndexColumn.mem_idsOf⟩
    | none =>
      refine .inr ⟨?_, ?_⟩
      · intro request asks
        cases asks with
        | publishRows _ _ present => simp [named] at present
      · intro manager
        simp [run, Link.publishRows, named]
  | selectColumns positions => exact .inl ⟨_, .selectColumns fun id => mem_columnIds⟩
  | brushIds link action ids => exact .inl ⟨_, .brushIds ..⟩
  | clearOwnFilter link => exact .inl ⟨_, .clearOwnFilter ..⟩
  | select target ids => exact .inl ⟨_, .select ..⟩
  | highlight target ids => exact .inl ⟨_, .highlight ..⟩
  | filter target source ids => exact .inl ⟨_, .filter ..⟩
  | clearFilter target source => exact .inl ⟨_, .clearFilter ..⟩
  | brush action target source ids => exact .inl ⟨_, .brush ..⟩

theorem Asks.unique {other : Request} (asks : operation.Asks request)
    (asks' : operation.Asks other) : request = other := by
  cases asks with
  | publishRows link action named held =>
    cases asks' with
    | publishRows _ _ named' held' =>
      rw [named, Option.some.injEq] at named'
      subst named'
      congr 1
      exact Ascending.ext fun id => (held id).trans (held' id).symm
  | selectColumns held =>
    cases asks' with
    | selectColumns held' =>
      congr 1
      exact Ascending.ext fun id => (held id).trans (held' id).symm
  | brushIds | clearOwnFilter | select | highlight | filter | clearFilter | brush =>
    cases asks'
    rfl

end Operation

/-! ## Where a request takes effect -/

theorem lookup_putEntry {α β : Type} [DecidableEq α] (key : α) (value : β) (entries : List (α × β))
    (other : α) : (putEntry key value entries).lookup other =
      if other = key then some value else entries.lookup other := by
  induction entries with
  | nil => rw [putEntry, lookup_cons_ite]
  | cons entry rest inductionHypothesis =>
    obtain ⟨here, old⟩ := entry
    rw [putEntry, lookup_cons_ite here old]
    split
    next found =>
      subst found
      rw [lookup_cons_ite]
      split <;> rfl
    next away =>
      rw [lookup_cons_ite, inductionHypothesis]
      -- Neither key is the other, so it does not matter which is compared first.
      apply ite_ite_comm
      rintro rfl equal
      exact away equal

/-- A request changes its target and no other. -/
theorem Request.state_run (request : Request) (manager : Manager) (target : Target) :
    (request.run manager).state target =
      if target = request.target then request.apply (manager.state target)
      else manager.state target := by
  simp only [run, Manager.edit, Manager.state, lookup_putEntry]
  split
  next same => rw [same]; rfl
  next => rfl

end LinkedTables
