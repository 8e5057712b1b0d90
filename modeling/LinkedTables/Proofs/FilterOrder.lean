import LinkedTables.Proofs.OwnChannel

/-! # The order of filters

Each source has its own filter, so a run of changes to filters leaves to every source what the last
of its own changes says.  How the changes of different sources are interleaved shows in answers and
generations on the way, and not in what is filtered out in the end. -/

namespace LinkedTables

/-- A source publishes a filter on a target, or takes back the one that it has there. -/
structure FilterChange where
  target : Target
  source : String
  filter : Option IdSet

namespace FilterChange

def operation : FilterChange → Operation
  | ⟨target, source, some ids⟩ => .filter target source ids
  | ⟨target, source, none⟩ => .clearFilter target source

def request : FilterChange → Request
  | ⟨target, source, some ids⟩ => .filter target source ids
  | ⟨target, source, none⟩ => .clearFilter target source

/-- The changes that a source makes on a target, in their order. -/
def of (target : Target) (source : String) (changes : List FilterChange) : List FilterChange :=
  changes.filter fun change => change.target = target ∧ change.source = source

/-- The filter that the last change of a source on a target leaves there, or the one from before if
    there is no such change. -/
def last (target : Target) (source : String) (changes : List FilterChange)
    (before : Option IdSet) : Option IdSet :=
  match (of target source changes).getLast? with
  | some change => change.filter
  | none => before

theorem asks (change : FilterChange) : change.operation.Asks change.request := by
  obtain ⟨target, source, filter⟩ := change
  cases filter with
  | none => exact .clearFilter target source
  | some ids => exact .filter target source ids

theorem filteredBy_run (change : FilterChange) (manager : Manager) (target : Target)
    (source : String) :
    (change.operation.run manager).filteredBy target source =
      if change.target = target ∧ change.source = source then change.filter
      else manager.filteredBy target source := by
  rw [change.asks.filteredBy_run]
  obtain ⟨place, key, filter⟩ := change
  cases filter <;>
    simp only [request, Request.target, Request.source?, Request.filter?, eq_comm,
      Option.some.injEq]

theorem last_concat (target : Target) (source : String) (changes : List FilterChange)
    (change : FilterChange) (before : Option IdSet) :
    last target source (changes ++ [change]) before =
      if change.target = target ∧ change.source = source then change.filter
      else last target source changes before := by
  by_cases own : change.target = target ∧ change.source = source
  · have appended : of target source (changes ++ [change]) =
        of target source changes ++ [change] := by
      rw [of, List.filter_append, List.filter_cons_of_pos (by simpa using own)]
      rfl
    rw [if_pos own, last, appended, List.getLast?_concat]
  · have unchanged : of target source (changes ++ [change]) = of target source changes := by
      rw [of, List.filter_append, List.filter_cons_of_neg (by simpa using own), List.filter_nil,
        List.append_nil]
      rfl
    rw [if_neg own, last, unchanged, last]

end FilterChange

namespace Manager

/-- The state that changes to filters leave behind, one after the other. -/
def afterFilters (manager : Manager) (changes : List FilterChange) : Manager :=
  manager.after (changes.map FilterChange.operation)

/-- A run of changes to filters leaves to every source what the last of its changes says. -/
theorem filteredBy_afterFilters (manager : Manager) (changes : List FilterChange) (target : Target)
    (source : String) :
    (manager.afterFilters changes).filteredBy target source =
      FilterChange.last target source changes (manager.filteredBy target source) := by
  induction changes using List.reverseRecOn with
  | nil => rfl
  | append_singleton changes change inductionHypothesis =>
    have stepped : manager.afterFilters (changes ++ [change]) =
        change.operation.run (manager.afterFilters changes) := by
      rw [afterFilters, List.map_append, after, List.foldl_append]
      rfl
    rw [stepped, change.filteredBy_run, inductionHypothesis, FilterChange.last_concat]

/-- After any run and any changes to filters behind it, what is filtered out is the union of what
    the changes leave to the sources. -/
theorem mem_filtered_afterFilters (history : List Operation) (changes : List FilterChange)
    (target : Target) (id : Identity) :
    id ∈ ((initial.after history).afterFilters changes).ids .filter target ↔
      ∃ source ids, FilterChange.last target source changes
        ((initial.after history).filteredBy target source) = some ids ∧ id ∈ ids := by
  -- A run of changes behind a run is a run.
  have whole : (initial.after history).afterFilters changes =
      initial.after (history ++ changes.map FilterChange.operation) :=
    (List.foldl_append ..).symm
  rw [whole, mem_filtered_after, ← whole]
  simp only [filteredBy_afterFilters]

/-- Filters of different sources commute.  From any state that a run leads to, changes to filters
    leave to each source what the last of its changes says, and filter out the union of that; so two
    interleavings of the same changes of each source come to the same. -/
theorem filters_commute (history : List Operation) (target : Target)
    (changes : List FilterChange) :
    (∀ source, ((initial.after history).afterFilters changes).filteredBy target source =
      FilterChange.last target source changes ((initial.after history).filteredBy target source)) ∧
    (∀ id, id ∈ ((initial.after history).afterFilters changes).ids .filter target ↔
      ∃ source ids, FilterChange.last target source changes
        ((initial.after history).filteredBy target source) = some ids ∧ id ∈ ids) ∧
    ∀ interleaved : List FilterChange,
      (∀ source,
        FilterChange.of target source interleaved = FilterChange.of target source changes) →
      ((initial.after history).afterFilters interleaved).ids .filter target =
        ((initial.after history).afterFilters changes).ids .filter target ∧
      ∀ source, ((initial.after history).afterFilters interleaved).filteredBy target source =
        ((initial.after history).afterFilters changes).filteredBy target source := by
  refine ⟨filteredBy_afterFilters _ changes target,
    mem_filtered_afterFilters history changes target, ?_⟩
  intro interleaved alike
  have same : ∀ source before, FilterChange.last target source interleaved before =
      FilterChange.last target source changes before := by
    intro source before
    rw [FilterChange.last, alike, FilterChange.last]
  constructor
  · apply Ascending.ext
    intro id
    rw [mem_filtered_afterFilters, mem_filtered_afterFilters]
    simp only [same]
  · intro source
    rw [filteredBy_afterFilters, filteredBy_afterFilters, same]

/-- A filter that comes and goes behind another is counted in one order and not in the other; what
    is filtered out in the end is the same. -/
theorem filters_commute_hidden :
    (initial.afterFilters [⟨.row, "table", some (.ofList [⟨1, by decide⟩])⟩,
        ⟨.row, "table", none⟩, ⟨.row, "plot", some (.ofList [⟨1, by decide⟩])⟩]).ids .filter .row =
      (initial.afterFilters [⟨.row, "plot", some (.ofList [⟨1, by decide⟩])⟩,
        ⟨.row, "table", some (.ofList [⟨1, by decide⟩])⟩, ⟨.row, "table", none⟩]).ids .filter .row ∧
    (initial.afterFilters [⟨.row, "table", some (.ofList [⟨1, by decide⟩])⟩,
        ⟨.row, "table", none⟩, ⟨.row, "plot", some (.ofList [⟨1, by decide⟩])⟩]).generation
          .filter .row ≠
      (initial.afterFilters [⟨.row, "plot", some (.ofList [⟨1, by decide⟩])⟩,
        ⟨.row, "table", some (.ofList [⟨1, by decide⟩])⟩, ⟨.row, "table", none⟩]).generation
          .filter .row := by
  refine ⟨((filters_commute [] .row _).2.2 _ ?_).1, by decide⟩
  intro source
  by_cases own : "table" = source
  · subst own
    rfl
  · simp [FilterChange.of, List.filter_cons, own]

end Manager

end LinkedTables
