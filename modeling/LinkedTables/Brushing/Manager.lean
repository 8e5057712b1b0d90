import LinkedTables.Brushing.Action
import LinkedTables.Brushing.Target
import LinkedTables.Brushing.Matching

/-! # Shared state

A `Manager` is what linked views share.  For every target it keeps the identities selected and
highlighted, the identities that each source filters out, and their union; and, for every
channel, a generation that moves when the identities of that channel change and at no other
time.  A target that nothing was published on is like one with no identities. -/

namespace LinkedTables

/-- How often the identities of a channel have changed, as a word: after `2 ^ 64` changes the
    count starts over. -/
abbrev Generation : Type := Unsigned .w64

def Generation.first : Generation := ⟨0, Nat.zero_lt_succ _⟩

def Generation.next (generation : Generation) : Generation :=
  ⟨(generation.val + 1) % Width.count .w64, Nat.mod_lt _ (by decide)⟩

structure Generations where
  filter : Generation
  select : Generation
  highlight : Generation
  deriving DecidableEq, Repr

namespace Generations

def initial : Generations := ⟨.first, .first, .first⟩

def of (generations : Generations) : Action → Generation
  | .filter => generations.filter
  | .select => generations.select
  | .highlight => generations.highlight

def bump (generations : Generations) : Action → Generations
  | .filter => { generations with filter := generations.filter.next }
  | .select => { generations with select := generations.select.next }
  | .highlight => { generations with highlight := generations.highlight.next }

@[simp] theorem of_bump (generations : Generations) (action other : Action) :
    (generations.bump action).of other =
      if other = action then (generations.of other).next else generations.of other := by
  cases action <;> cases other <;> rfl

end Generations

/-- Entries with that of a key replaced or added. -/
def putEntry {α β : Type} [DecidableEq α] (key : α) (value : β) : List (α × β) → List (α × β)
  | [] => [(key, value)]
  | (other, old) :: rest =>
    if other = key then (key, value) :: rest else (other, old) :: putEntry key value rest

structure TargetState where
  selected : IdSet
  highlighted : IdSet
  filters : List (String × IdSet)
  filtered : IdSet
  generations : Generations

namespace TargetState

def initial : TargetState :=
  ⟨.empty, .empty, [], .empty, .initial⟩

def ids (state : TargetState) : Action → IdSet
  | .filter => state.filtered
  | .select => state.selected
  | .highlight => state.highlighted

@[simp] theorem ids_filter (state : TargetState) : state.ids .filter = state.filtered := rfl

@[simp] theorem ids_select (state : TargetState) : state.ids .select = state.selected := rfl

@[simp] theorem ids_highlight (state : TargetState) : state.ids .highlight = state.highlighted := rfl

def bump (state : TargetState) (action : Action) : TargetState :=
  { state with generations := state.generations.bump action }

section

variable (state : TargetState) (action : Action)

@[simp] theorem bump_selected : (state.bump action).selected = state.selected := rfl

@[simp] theorem bump_highlighted : (state.bump action).highlighted = state.highlighted := rfl

@[simp] theorem bump_filters : (state.bump action).filters = state.filters := rfl

@[simp] theorem bump_filtered : (state.bump action).filtered = state.filtered := rfl

@[simp] theorem bump_generations :
    (state.bump action).generations = state.generations.bump action := rfl

end

/-- Publish a selection; the answer says whether it is a new one. -/
def select (state : TargetState) (ids : IdSet) : Bool × TargetState :=
  if state.selected = ids then (false, state)
  else (true, { state.bump .select with selected := ids })

def highlight (state : TargetState) (ids : IdSet) : Bool × TargetState :=
  if state.highlighted = ids then (false, state)
  else (true, { state.bump .highlight with highlighted := ids })

/-- The identities that any source filters out. -/
def union (filters : List (String × IdSet)) : IdSet :=
  filters.foldl (fun union (_, ids) => union.union ids) .empty

/-- Bring the union up to date with the filters; the answer says whether it changed. -/
def refresh (state : TargetState) : Bool × TargetState :=
  let filtered := union state.filters
  if filtered = state.filtered then (false, state)
  else (true, { state.bump .filter with filtered })

/-- Publish the filter of a source; the answer says whether the union changed. -/
def filter (state : TargetState) (source : String) (ids : IdSet) : Bool × TargetState :=
  -- A filter that is published again leaves even the list of filters alone.
  if state.filters.lookup source = some ids then (false, state)
  else { state with filters := putEntry source ids state.filters }.refresh

def clearFilter (state : TargetState) (source : String) : Bool × TargetState :=
  match state.filters.lookup source with
  | none => (false, state)
  | some _ =>
    { state with filters := state.filters.filter fun (other, _) => other ≠ source }.refresh

end TargetState

structure Manager where
  states : List (Target × TargetState)

namespace Manager

def initial : Manager := ⟨[]⟩

def state (manager : Manager) (target : Target) : TargetState :=
  (manager.states.lookup target).getD .initial

def edit (manager : Manager) (target : Target) (change : TargetState → Bool × TargetState) :
    Bool × Manager :=
  let (changed, state) := change (manager.state target)
  (changed, ⟨putEntry target state manager.states⟩)

def select (manager : Manager) (target : Target) (ids : IdSet) : Bool × Manager :=
  manager.edit target (·.select ids)

def highlight (manager : Manager) (target : Target) (ids : IdSet) : Bool × Manager :=
  manager.edit target (·.highlight ids)

def filter (manager : Manager) (target : Target) (source : String) (ids : IdSet) :
    Bool × Manager :=
  manager.edit target (·.filter source ids)

def clearFilter (manager : Manager) (target : Target) (source : String) : Bool × Manager :=
  manager.edit target (·.clearFilter source)

/-- Publish identities on a channel.  Only filters are kept by source. -/
def brush (manager : Manager) (action : Action) (target : Target) (source : String)
    (ids : IdSet) : Bool × Manager :=
  match action with
  | .filter => manager.filter target source ids
  | .select => manager.select target ids
  | .highlight => manager.highlight target ids

def ids (manager : Manager) (action : Action) (target : Target) : IdSet :=
  (manager.state target).ids action

def filteredBy (manager : Manager) (target : Target) (source : String) : Option IdSet :=
  (manager.state target).filters.lookup source

def generation (manager : Manager) (action : Action) (target : Target) : Generation :=
  (manager.state target).generations.of action

end Manager

end LinkedTables
