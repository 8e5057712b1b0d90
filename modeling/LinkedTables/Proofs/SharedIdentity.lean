import LinkedTables.Proofs.Operations
import Mathlib.Data.List.Induction
import Mathlib.Logic.Equiv.Defs

/-! # Rows shared by identity

What a channel holds after any run is what was last published on it, whoever published it and
whatever happened on other channels; of the filters it is what was last published by each source
and not taken back since.  A link shows this as rows of its own table, matched by identity, so the
order of rows in either table plays no part. -/

namespace LinkedTables

/-! ## The last of a history -/

/-- What the entries of a history tell last, or what holds before any of them tells. -/
inductive Latest {α β : Type} (tells : α → β → Prop) (initial : β) : List α → β → Prop where
  | never {history : List α} (silent : ∀ entry ∈ history, ∀ b, ¬ tells entry b) :
      Latest tells initial history initial
  | last (before : List α) {entry : α} {after : List α} {b : β} (told : tells entry b)
      (silent : ∀ later ∈ after, ∀ c, ¬ tells later c) :
      Latest tells initial (before ++ entry :: after) b

namespace Latest

variable {α β : Type} {tells : α → β → Prop} {initial b c : β} {history : List α} {entry : α}

theorem told (tell : tells entry b) : Latest tells initial (history ++ [entry]) b :=
  .last history tell (by simp)

theorem kept (latest : Latest tells initial history b) (silent : ∀ c, ¬ tells entry c) :
    Latest tells initial (history ++ [entry]) b := by
  cases latest with
  | never quiet =>
    apply Latest.never
    intro other member
    rcases List.mem_append.mp member with earlier | here
    · exact quiet other earlier
    · rw [List.mem_singleton.mp here]
      exact silent
  | @last before first after _ told quiet =>
    rw [List.append_assoc, List.cons_append]
    apply Latest.last before told
    intro later member
    rcases List.mem_append.mp member with earlier | here
    · exact quiet later earlier
    · rw [List.mem_singleton.mp here]
      exact silent

theorem of_concat (latest : Latest tells initial (history ++ [entry]) b) :
    tells entry b ∨ (∀ c, ¬ tells entry c) ∧ Latest tells initial history b := by
  generalize whole : history ++ [entry] = entries at latest
  cases latest with
  | never silent =>
    subst whole
    exact .inr ⟨silent entry (by simp), .never fun other member =>
      silent other (List.mem_append_left _ member)⟩
  | @last before first after _ tell silent =>
    rcases List.eq_nil_or_concat after with rfl | ⟨middle, final, rfl⟩
    · obtain ⟨rfl, here⟩ := List.append_inj' whole rfl
      rw [List.cons.injEq] at here
      exact .inl (here.1 ▸ tell)
    · rw [List.concat_eq_append, ← List.cons_append, ← List.append_assoc] at whole
      obtain ⟨rfl, here⟩ := List.append_inj' whole rfl
      rw [List.cons.injEq] at here
      rw [here.1]
      refine .inr ⟨silent final (by simp), .last before tell fun later member => ?_⟩
      exact silent later (by simp [member])

/-- If no entry tells two things, there is one latest. -/
theorem unique (single : ∀ entry b c, tells entry b → tells entry c → b = c)
    (latest : Latest tells initial history b) (latest' : Latest tells initial history c) : b = c := by
  induction history using List.reverseRecOn with
  | nil =>
    have start : ∀ d, Latest tells initial [] d → d = initial := by
      intro d found
      generalize empty : ([] : List α) = entries at found
      cases found with
      | never _ => rfl
      | last before told silent => simp at empty
    rw [start b latest, start c latest']
  | append_singleton history entry inductionHypothesis =>
    rcases latest.of_concat with tell | ⟨silent, before⟩
    · rcases latest'.of_concat with tell' | ⟨silent', _⟩
      · exact single entry b c tell tell'
      · exact absurd tell (silent' b)
    · rcases latest'.of_concat with tell' | ⟨_, before'⟩
      · exact absurd tell' (silent c)
      · exact inductionHypothesis before before'

end Latest

/-- An operation selects identities on a target. -/
def Operation.Selects (target : Target) (operation : Operation) (ids : IdSet) : Prop :=
  operation.Asks (.select target ids)

/-- An operation highlights identities on a target. -/
def Operation.Highlights (target : Target) (operation : Operation) (ids : IdSet) : Prop :=
  operation.Asks (.highlight target ids)

/-- An operation sets the filter of a source on a target, or takes it back. -/
inductive Operation.SetsFilter (target : Target) (source : String) :
    Operation → Option IdSet → Prop where
  | published {operation : Operation} {ids : IdSet}
      (asks : operation.Asks (.filter target source ids)) :
      SetsFilter target source operation (some ids)
  | cleared {operation : Operation} (asks : operation.Asks (.clearFilter target source)) :
      SetsFilter target source operation none

theorem Operation.SetsFilter.unique {target : Target} {source : String} (operation : Operation)
    (b c : Option IdSet) (sets : SetsFilter target source operation b)
    (sets' : SetsFilter target source operation c) : b = c := by
  cases sets with
  | published asks =>
    cases sets' with
    | published asks' =>
      have same := asks.unique asks'
      rw [Request.filter.injEq] at same
      rw [same.2.2]
    | cleared asks' => exact absurd (asks.unique asks') (by simp)
  | cleared asks =>
    cases sets' with
    | published asks' => exact absurd (asks.unique asks') (by simp)
    | cleared _ => rfl

/-! ## What the state of a target holds -/

namespace TargetState

/-- The state of a target holds what a history of operations last published there. -/
structure Holds (target : Target) (history : List Operation) (state : TargetState) : Prop where
  selected : Latest (Operation.Selects target) .empty history state.selected
  highlighted : Latest (Operation.Highlights target) .empty history state.highlighted
  filters : ∀ source, Latest (Operation.SetsFilter target source) none history
    (state.filters.lookup source)
  sources : (state.filters.map Prod.fst).Nodup
  union_eq : state.filtered = union state.filters

variable {target : Target} {history : List Operation} {state : TargetState} {operation : Operation}
  {request : Request}

theorem holds_initial (target : Target) : initial.Holds target [] where
  selected := .never (by simp)
  highlighted := .never (by simp)
  filters _ := .never (by simp)
  sources := List.nodup_nil
  union_eq := rfl

theorem fst_mem_putEntry {source other : String} {ids : IdSet} {filters : List (String × IdSet)} :
    other ∈ (putEntry source ids filters).map Prod.fst ↔
      other = source ∨ other ∈ filters.map Prod.fst := by
  induction filters with
  | nil => simp [putEntry]
  | cons entry rest inductionHypothesis =>
    obtain ⟨here, old⟩ := entry
    by_cases same : here = source
    · simp [putEntry, same]
    · simp only [putEntry, if_neg same, List.map_cons, List.mem_cons, inductionHypothesis]
      exact or_left_comm

theorem nodup_putEntry {source : String} {ids : IdSet} {filters : List (String × IdSet)}
    (nodup : (filters.map Prod.fst).Nodup) : ((putEntry source ids filters).map Prod.fst).Nodup := by
  induction filters with
  | nil => simp [putEntry]
  | cons entry rest inductionHypothesis =>
    obtain ⟨here, old⟩ := entry
    rw [List.map_cons, List.nodup_cons] at nodup
    by_cases same : here = source
    · subst same
      rw [putEntry, if_pos rfl, List.map_cons, List.nodup_cons]
      exact nodup
    · rw [putEntry, if_neg same, List.map_cons, List.nodup_cons, fst_mem_putEntry]
      exact ⟨not_or.mpr ⟨same, nodup.1⟩, inductionHypothesis nodup.2⟩

theorem lookup_filter_ne (source other : String) (filters : List (String × IdSet)) :
    (filters.filter fun (key, _) => key ≠ source).lookup other =
      if other = source then none else filters.lookup other := by
  induction filters with
  | nil => simp
  | cons entry rest inductionHypothesis =>
    obtain ⟨here, ids⟩ := entry
    rw [lookup_cons_ite]
    by_cases dropped : here = source
    · rw [List.filter_cons_of_neg (by simpa using dropped), inductionHypothesis, dropped]
      split <;> rfl
    · rw [List.filter_cons_of_pos (by simpa using dropped), lookup_cons_ite, inductionHypothesis]
      apply ite_ite_comm
      rintro rfl equal
      exact dropped equal

@[simp] theorem refresh_filters (state : TargetState) : state.refresh.2.filters = state.filters := by
  simp only [refresh]
  split <;> rfl

@[simp] theorem refresh_filtered (state : TargetState) : state.refresh.2.filtered = union state.filters := by
  simp only [refresh]
  split
  next same => exact same.symm
  next => rfl

@[simp] theorem refresh_selected (state : TargetState) : state.refresh.2.selected = state.selected := by
  simp only [refresh]
  split <;> rfl

@[simp] theorem refresh_highlighted (state : TargetState) :
    state.refresh.2.highlighted = state.highlighted := by
  simp only [refresh]
  split <;> rfl

namespace Holds

/-- An operation that asks nothing of a target adds nothing to what it holds. -/
theorem kept (holds : state.Holds target history)
    (away : ∀ request, operation.Asks request → request.target ≠ target) :
    state.Holds target (history ++ [operation]) where
  selected := holds.selected.kept fun _ asks => away _ asks rfl
  highlighted := holds.highlighted.kept fun _ asks => away _ asks rfl
  filters source := (holds.filters source).kept fun _ sets => by
    cases sets with
    | published asks => exact away _ asks rfl
    | cleared asks => exact away _ asks rfl
  sources := holds.sources
  union_eq := holds.union_eq

theorem filters_kept (holds : state.Holds target history) {source : String}
    (published : ∀ ids, ¬ operation.Asks (.filter target source ids))
    (cleared : ¬ operation.Asks (.clearFilter target source)) :
    Latest (Operation.SetsFilter target source) none (history ++ [operation])
      (state.filters.lookup source) := by
  refine (holds.filters source).kept ?_
  intro filter sets
  cases sets with
  | published asks => exact published _ asks
  | cleared asks => exact cleared asks

theorem select (holds : state.Holds target history) {ids : IdSet}
    (asks : operation.Asks (.select target ids)) :
    (state.select ids).2.Holds target (history ++ [operation]) := by
  have selected : (state.select ids).2.selected = ids := by
    simp only [TargetState.select]
    split
    next same => exact same
    next => rfl
  have others : (state.select ids).2.highlighted = state.highlighted ∧
      (state.select ids).2.filters = state.filters ∧
      (state.select ids).2.filtered = state.filtered := by
    simp only [TargetState.select]
    split <;> exact ⟨rfl, rfl, rfl⟩
  obtain ⟨highlighted, filters, filtered⟩ := others
  refine ⟨?_, ?_, ?_, filters ▸ holds.sources, ?_⟩
  · rw [selected]
    exact .told asks
  · rw [highlighted]
    exact holds.highlighted.kept fun _ asks' => by simpa using asks.unique asks'
  · intro source
    rw [filters]
    exact holds.filters_kept (fun _ asks' => by simpa using asks.unique asks')
      fun asks' => by simpa using asks.unique asks'
  · rw [filtered, filters, holds.union_eq]

theorem highlight (holds : state.Holds target history) {ids : IdSet}
    (asks : operation.Asks (.highlight target ids)) :
    (state.highlight ids).2.Holds target (history ++ [operation]) := by
  have highlighted : (state.highlight ids).2.highlighted = ids := by
    simp only [TargetState.highlight]
    split
    next same => exact same
    next => rfl
  have others : (state.highlight ids).2.selected = state.selected ∧
      (state.highlight ids).2.filters = state.filters ∧
      (state.highlight ids).2.filtered = state.filtered := by
    simp only [TargetState.highlight]
    split <;> exact ⟨rfl, rfl, rfl⟩
  obtain ⟨selected, filters, filtered⟩ := others
  refine ⟨?_, ?_, ?_, filters ▸ holds.sources, ?_⟩
  · rw [selected]
    exact holds.selected.kept fun _ asks' => by simpa using asks.unique asks'
  · rw [highlighted]
    exact .told asks
  · intro source
    rw [filters]
    exact holds.filters_kept (fun _ asks' => by simpa using asks.unique asks')
      fun asks' => by simpa using asks.unique asks'
  · rw [filtered, filters, holds.union_eq]

/-- New filters, of which only that of one source is another. -/
theorem refresh (holds : state.Holds target history) {source : String} {filter : Option IdSet}
    {filters : List (String × IdSet)}
    (sets : operation.SetsFilter target source filter)
    (lookup : ∀ other, filters.lookup other =
      if other = source then filter else state.filters.lookup other)
    (nodup : (filters.map Prod.fst).Nodup) :
    ({ state with filters }.refresh).2.Holds target (history ++ [operation]) := by
  -- What the operation asks is a filter, and of this source.
  have asked : ∀ other, operation.Asks other →
      other.action = .filter ∧ ∀ key ids, (other = .filter target key ids → key = source) ∧
        (other = .clearFilter target key → key = source) := by
    intro other asks'
    cases sets with
    | published asks =>
      obtain rfl := asks.unique asks'
      refine ⟨rfl, fun key ids => ⟨?_, nofun⟩⟩
      intro same
      rw [Request.filter.injEq] at same
      exact same.2.1.symm
    | cleared asks =>
      obtain rfl := asks.unique asks'
      refine ⟨rfl, fun key ids => ⟨nofun, ?_⟩⟩
      intro same
      rw [Request.clearFilter.injEq] at same
      exact same.2.symm
  refine ⟨?_, ?_, ?_, ?_, ?_⟩
  · rw [refresh_selected]
    exact holds.selected.kept fun _ asks => nomatch (asked _ asks).1
  · rw [refresh_highlighted]
    exact holds.highlighted.kept fun _ asks => nomatch (asked _ asks).1
  · intro other
    rw [refresh_filters, lookup]
    by_cases same : other = source
    · rw [if_pos same, same]
      exact .told sets
    · rw [if_neg same]
      refine holds.filters_kept ?_ ?_
      · intro ids asks
        exact same (((asked _ asks).2 other ids).1 rfl)
      · intro asks
        exact same (((asked _ asks).2 other .empty).2 rfl)
  · rw [refresh_filters]
    exact nodup
  · rw [refresh_filtered, refresh_filters]

theorem unchanged (holds : state.Holds target history) {source : String} {filter : Option IdSet}
    (sets : operation.SetsFilter target source filter)
    (found : state.filters.lookup source = filter) : state.Holds target (history ++ [operation]) := by
  have lookup : ∀ other, state.filters.lookup other =
      if other = source then filter else state.filters.lookup other := by
    intro other
    split
    next same => rw [same, found]
    next => rfl
  -- There is nothing to refresh, because the union is up to date.
  have refreshed : state.refresh.2 = state := by
    simp only [TargetState.refresh, holds.union_eq, if_true]
  have again := holds.refresh sets lookup holds.sources
  rwa [refreshed] at again

theorem apply (holds : state.Holds target history) (asks : operation.Asks request)
    (here : target = request.target) :
    (request.apply state).Holds target (history ++ [operation]) := by
  subst here
  cases request with
  | select target ids => exact holds.select asks
  | highlight target ids => exact holds.highlight asks
  | filter target source ids =>
    simp only [Request.apply, TargetState.filter]
    split
    next known => exact holds.unchanged (.published asks) known
    next new =>
      have lookup := lookup_putEntry source ids state.filters
      exact holds.refresh (.published asks) lookup (nodup_putEntry holds.sources)
  | clearFilter target source =>
    simp only [Request.apply, TargetState.clearFilter]
    split
    next absent => exact holds.unchanged (.cleared asks) absent
    next present =>
      refine holds.refresh (.cleared asks) (lookup_filter_ne source · state.filters) ?_
      exact holds.sources.sublist (List.filter_sublist.map _)

end Holds

/-! ## Who is filtered out -/

theorem mem_foldl_union {id : Identity} {filters : List (String × IdSet)} {start : IdSet} :
    id ∈ filters.foldl (fun union (_, ids) => union.union ids) start ↔
      id ∈ start ∨ ∃ entry ∈ filters, id ∈ entry.2 := by
  induction filters generalizing start with
  | nil => simp
  | cons entry rest inductionHypothesis =>
    rw [List.foldl_cons, inductionHypothesis, Ascending.mem_union, or_assoc]
    simp

theorem lookup_of_mem {entry : String × IdSet} {filters : List (String × IdSet)}
    (nodup : (filters.map Prod.fst).Nodup) (member : entry ∈ filters) :
    filters.lookup entry.1 = some entry.2 := by
  induction filters with
  | nil => contradiction
  | cons first rest inductionHypothesis =>
    obtain ⟨key, ids⟩ := first
    rw [List.map_cons, List.nodup_cons] at nodup
    rcases List.mem_cons.mp member with rfl | later
    · exact List.lookup_cons_self
    · have different : entry.1 ≠ key := by
        intro same
        exact nodup.1 (List.mem_map.mpr ⟨entry, later, same⟩)
      rw [lookup_cons_ite, if_neg different]
      exact inductionHypothesis nodup.2 later

theorem mem_of_lookup {source : String} {ids : IdSet} {filters : List (String × IdSet)}
    (found : filters.lookup source = some ids) : (source, ids) ∈ filters := by
  obtain ⟨before, after, split, _⟩ := List.lookup_eq_some_iff.mp found
  rw [split]
  simp

theorem mem_union_iff {filters : List (String × IdSet)} (nodup : (filters.map Prod.fst).Nodup)
    {id : Identity} :
    id ∈ union filters ↔ ∃ source ids, filters.lookup source = some ids ∧ id ∈ ids := by
  have nothing : id ∉ (Ascending.empty : IdSet) := List.not_mem_nil
  rw [union, mem_foldl_union, or_iff_right nothing]
  constructor
  · rintro ⟨entry, member, inside⟩
    exact ⟨entry.1, entry.2, lookup_of_mem nodup member, inside⟩
  · rintro ⟨source, ids, found, inside⟩
    exact ⟨(source, ids), mem_of_lookup found, inside⟩

theorem Holds.mem_filtered (holds : state.Holds target history) {id : Identity} :
    id ∈ state.filtered ↔
      ∃ source ids, Latest (Operation.SetsFilter target source) none history (some ids) ∧
        id ∈ ids := by
  rw [holds.union_eq, mem_union_iff holds.sources]
  refine exists_congr fun source => exists_congr fun ids => and_congr_left fun _ => ?_
  constructor
  · intro found
    rw [← found]
    exact holds.filters source
  · exact (holds.filters source).unique Operation.SetsFilter.unique

end TargetState

/-! ## A run -/

theorem Operation.holds_run {manager : Manager} {target : Target} {history : List Operation}
    (holds : (manager.state target).Holds target history) (operation : Operation) :
    ((operation.run manager).state target).Holds target (history ++ [operation]) := by
  rcases operation.asks_or_idle with ⟨request, asks⟩ | ⟨silent, idle⟩
  · rw [asks.run_eq, request.state_run]
    split
    next here => exact holds.apply asks here
    next away =>
      refine holds.kept fun other asks' => ?_
      rw [← asks.unique asks']
      exact Ne.symm away
  · rw [idle]
    exact holds.kept fun request asks => absurd asks (silent request)

theorem Manager.holds_after (history : List Operation) (target : Target) :
    ((Manager.initial.after history).state target).Holds target history := by
  induction history using List.reverseRecOn with
  | nil => exact TargetState.holds_initial target
  | append_singleton history operation inductionHypothesis =>
    rw [Manager.after, List.foldl_append]
    exact Operation.holds_run inductionHypothesis operation

/-! ## What a link shows -/

/-- A table shows a set of identities: each by the first row that holds it. -/
def IndexColumn.Shows (index : IndexColumn) (ids : IdSet)
    (answer : Except LinkError (RowSet × MatchCounts)) : Prop :=
  ∃ rows counts, answer = .ok (rows, counts) ∧ index.Matches ids rows counts ∧
    (index.ids.toList.Nodup → ∀ row, row ∈ rows ↔ ∃ id ∈ ids, index.ids[row.val]? = some id)

namespace Link

variable {manager : Manager} {action : Action} {frame : Frame} {index : IndexColumn}

theorem publishedRows_shows (link : Link) (named : frame.index? = some index)
    (numbered : index.size ≤ Width.count .w32) :
    index.Shows (manager.ids action link.target) (link.publishedRows manager action frame) := by
  have matched := RowLookup.rowsOf_matches (manager.ids action link.target) numbered
  refine ⟨_, _, by rw [publishedRows, named], matched, ?_⟩
  intro unique row
  rw [matched.mem_iff]
  exact exists_congr fun id => and_congr_right fun _ => IndexColumn.firstHolds_iff unique

/-- Two tables show the same rows, those of the second moved by a permutation. -/
def ShownAlike (place : Equiv.Perm Row) (answer answer' : Except LinkError RowSet) : Prop :=
  ∃ rows rows', answer = .ok rows ∧ answer' = .ok rows' ∧ ∀ row, place row ∈ rows' ↔ row ∈ rows

section

variable {other : Frame} {index' : IndexColumn} {place : Equiv.Perm Row} {row : Row} {id : Identity}

theorem firstHolds_moved (moved : ∀ row, index'.ids[(place row).val]? = index.ids[row.val]?)
    (unique : index.ids.toList.Nodup) :
    index'.FirstHolds (place row) id ↔ index.FirstHolds row id := by
  rw [IndexColumn.firstHolds_iff unique]
  constructor
  · intro first
    rw [← moved row]
    exact first.held
  · intro held
    refine ⟨by rw [moved row, held], ?_⟩
    intro earlier before same
    -- The earlier row comes from a row that holds the same identity, so it is this one.
    have bound : earlier < Width.count .w32 := Nat.lt_trans before (place row).isLt
    obtain ⟨origin, place_eq⟩ := place.surjective ⟨earlier, bound⟩
    have earlier_eq : (place origin).val = earlier := congrArg Fin.val place_eq
    rw [← earlier_eq, moved origin] at same
    have inside : origin.val < index.ids.toList.length := (Array.getElem?_eq_some_iff.mp same).1
    have equal : index.ids.toList[origin.val]? = index.ids.toList[row.val]? := by
      rw [Array.getElem?_toList, Array.getElem?_toList, same, held]
    have origin_eq : origin = row := Fin.ext ((List.getElem?_inj inside unique).mp equal)
    rw [← origin_eq, earlier_eq] at before
    exact Nat.lt_irrefl earlier before

theorem publishedRows_alike (link : Link) (named : frame.index? = some index)
    (named' : other.index? = some index') (numbered : index.size ≤ Width.count .w32)
    (numbered' : index'.size ≤ Width.count .w32)
    (moved : ∀ row, index'.ids[(place row).val]? = index.ids[row.val]?)
    (unique : index.ids.toList.Nodup) :
    ShownAlike place ((link.publishedRows manager action frame).map Prod.fst)
      ((link.publishedRows manager action other).map Prod.fst) := by
  have matched := RowLookup.rowsOf_matches (manager.ids action link.target) numbered
  have matched' := RowLookup.rowsOf_matches (manager.ids action link.target) numbered'
  refine ⟨_, _, by rw [publishedRows, named]; rfl, by rw [publishedRows, named']; rfl, ?_⟩
  intro row
  rw [matched'.mem_iff, matched.mem_iff]
  exact exists_congr fun id => and_congr_right fun _ => firstHolds_moved moved unique

theorem remainingRows_alike (link : Link) (named : frame.index? = some index)
    (named' : other.index? = some index')
    (moved : ∀ row, index'.ids[(place row).val]? = index.ids[row.val]?) :
    ShownAlike place (link.remainingRows manager frame) (link.remainingRows manager other) := by
  refine ⟨_, _, by rw [remainingRows, named], by rw [remainingRows, named'], ?_⟩
  intro row
  rw [IndexColumn.mem_remainingRows, IndexColumn.mem_remainingRows, moved row]

end

/-- After any run a link shows, as rows of its own table, what was last selected and highlighted on
    its target, and as remaining rows those that no source filters out at present.  If identities
    are unique, a row is shown exactly if its identity was published, and a table with the same
    rows in another order shows the same of them.  Rows of a table that nothing names are refused
    and leave shared state as it was. -/
theorem rows_follow_identity (history : List Operation) (link : Link) (frame : Frame)
    (index : IndexColumn) (named : frame.index? = some index) (numbered : index.size ≤ Width.count .w32) :
    (∃ ids, Latest (Operation.Selects link.target) .empty history ids ∧
      index.Shows ids (link.selectedRows (Manager.initial.after history) frame)) ∧
    (∃ ids, Latest (Operation.Highlights link.target) .empty history ids ∧
      index.Shows ids (link.highlightedRows (Manager.initial.after history) frame)) ∧
    (∃ rows, link.remainingRows (Manager.initial.after history) frame = .ok rows ∧
      ∀ row, row ∈ rows ↔ ∃ id, index.ids[row.val]? = some id ∧ ∀ source ids,
        Latest (Operation.SetsFilter link.target source) none history (some ids) → id ∉ ids) ∧
    (∀ (other : Frame) (index' : IndexColumn) (place : Equiv.Perm Row),
      other.index? = some index' → index'.size ≤ Width.count .w32 →
      (∀ row, index'.ids[(place row).val]? = index.ids[row.val]?) → index.ids.toList.Nodup →
      ShownAlike place ((link.selectedRows (Manager.initial.after history) frame).map Prod.fst)
        ((link.selectedRows (Manager.initial.after history) other).map Prod.fst) ∧
      ShownAlike place ((link.highlightedRows (Manager.initial.after history) frame).map Prod.fst)
        ((link.highlightedRows (Manager.initial.after history) other).map Prod.fst) ∧
      ShownAlike place (link.remainingRows (Manager.initial.after history) frame)
        (link.remainingRows (Manager.initial.after history) other)) ∧
    ∀ (bare : Frame) (manager : Manager) (action : Action) (rows : RowSet), bare.index? = none →
      link.publishRows manager action bare rows = (.error .missingIndexColumn, manager) := by
  have holds := Manager.holds_after history link.target
  -- The run decides what is published, and the index column how rows show it.
  refine ⟨⟨_, holds.selected, publishedRows_shows link named numbered⟩,
    ⟨_, holds.highlighted, publishedRows_shows link named numbered⟩, ?_, ?_, ?_⟩
  · refine ⟨_, by rw [remainingRows, named], ?_⟩
    intro row
    rw [IndexColumn.mem_remainingRows]
    refine exists_congr fun id => and_congr_right fun _ => ?_
    rw [show id ∈ (Manager.initial.after history).ids .filter link.target ↔ _ from holds.mem_filtered]
    simp only [not_exists, not_and]
  · intro other index' place named' numbered' moved unique
    exact ⟨publishedRows_alike link named named' numbered numbered' moved unique,
      publishedRows_alike link named named' numbered numbered' moved unique,
      remainingRows_alike link named named' moved⟩
  · intro bare manager action rows unnamed
    simp only [publishRows, unnamed]

def tableOf (ids : List Identity) : Frame :=
  ⟨[.index (.ofIds Frame.indexHeader ids)]⟩

/-- Row 0 of one table is row 2 of another that has the same rows the other way round. -/
theorem rows_follow_identity_reversed :
    ∃ ids, Latest (Operation.Selects .row) .empty
        [.publishRows (onRows "plot") .select
          (tableOf [⟨10, by decide⟩, ⟨20, by decide⟩, ⟨30, by decide⟩]) (.ofList [⟨0, by decide⟩])]
        ids ∧
      (IndexColumn.ofIds Frame.indexHeader
          [⟨30, by decide⟩, ⟨20, by decide⟩, ⟨10, by decide⟩]).Shows ids
        (.ok (.ofList [⟨2, by decide⟩], ⟨1, 0⟩)) := by
  have shown := (rows_follow_identity
    [.publishRows (onRows "plot") .select
      (tableOf [⟨10, by decide⟩, ⟨20, by decide⟩, ⟨30, by decide⟩]) (.ofList [⟨0, by decide⟩])]
    (onRows "table") (tableOf [⟨30, by decide⟩, ⟨20, by decide⟩, ⟨10, by decide⟩]) _ rfl
    (by decide)).1
  have answer : (onRows "table").selectedRows
      (Manager.initial.after [.publishRows (onRows "plot") .select
        (tableOf [⟨10, by decide⟩, ⟨20, by decide⟩, ⟨30, by decide⟩]) (.ofList [⟨0, by decide⟩])])
      (tableOf [⟨30, by decide⟩, ⟨20, by decide⟩, ⟨10, by decide⟩]) =
        .ok (.ofList [⟨2, by decide⟩], ⟨1, 0⟩) := by rfl
  rwa [answer] at shown

end Link

end LinkedTables
