import LinkedTables.Proofs.GreatestIdentity
import LinkedTables.Proofs.IndexColumns
import Mathlib.Logic.Relation

/-! # Identities are stable

As long as no column that names rows comes or goes, the identities of a table change only at their
end: some are cut off, or greater ones follow.  So no identity is ever held by two rows, and a row
that stays keeps its own.  All of this is settled on the index column, where the greatest identity
is tracked; a step of the table comes to at most one step of that column. -/

namespace LinkedTables

/-! ## Lists of identities -/

/-- Identities after a step: the first of those from before, or all of them and greater ones. -/
inductive Identity.Follows (before : List Identity) : List Identity → Prop where
  | cut {after : List Identity} (kept : after <+: before) : Follows before after
  | grown {fresh : List Identity} (ascending : fresh.Pairwise (· < ·))
      (above : ∀ id ∈ fresh, ∀ old ∈ before, old < id) : Follows before (before ++ fresh)

namespace Identity.Follows

variable {before after : List Identity}

theorem refl (ids : List Identity) : Follows ids ids :=
  .cut List.prefix_rfl

theorem nodup (follows : Follows before after) (unique : before.Nodup) : after.Nodup := by
  cases follows with
  | cut kept => exact unique.sublist kept.sublist
  | @grown fresh ascending above =>
    refine List.nodup_append.mpr ⟨unique, ascending.imp Fin.ne_of_lt, ?_⟩
    intro old held id new
    exact Fin.ne_of_lt (above id new old held)

theorem getElem?_eq (follows : Follows before after) {row : Nat} {id id' : Identity}
    (there : before[row]? = some id) (here : after[row]? = some id') : id' = id := by
  cases follows with
  | cut kept =>
    obtain ⟨rest, rfl⟩ := kept
    obtain ⟨bound, _⟩ := List.getElem?_eq_some_iff.mp here
    rw [List.getElem?_append_left bound, here] at there
    exact Option.some.inj there
  | grown ascending above =>
    obtain ⟨bound, _⟩ := List.getElem?_eq_some_iff.mp there
    rw [List.getElem?_append_left bound, there] at here
    exact (Option.some.inj here).symm

end Identity.Follows

/-! ## Steps of an index column -/

namespace IndexColumn

variable {index next : IndexColumn}

/-- A step of a column whose identities are given by the library alone. -/
inductive Step (index : IndexColumn) : IndexColumn → Prop where
  | idle : Step index index
  | named {id : Identity} (identity : index.nextId = .ok id) : Step index (index.push id)
  | extended (count : Nat) : Step index (index.extend count).2
  | cut (size : Nat) : Step index (index.truncate size)

theorem Step.built (step : index.Step next) (built : index.Built) : next.Built := by
  cases step with
  | idle => exact built
  | @named id _ => exact built.push id
  | extended count => exact built.extend count
  | cut size => exact built.truncate size

theorem Step.follows (step : index.Step next) (tracked : index.Tracked) :
    Identity.Follows index.ids.toList next.ids.toList := by
  cases step with
  | idle => exact .refl _
  | @named id identity =>
    rw [push, Array.toList_push]
    refine .grown (List.pairwise_singleton _ id) fun fresh new old held => ?_
    rw [List.mem_singleton.mp new]
    exact tracked.lt_nextId identity held
  | extended count =>
    have outcome := extend_extended count index
    generalize index.extend count = result at outcome ⊢
    cases outcome with
    | idle => exact .refl _
    | refused => exact .refl _
    | @extended start last identity asked reach =>
      rw [Array.toList_appendList]
      -- The fresh identities begin at the next one, which is above all that are held.
      refine .grown (pairwise_consecutive start.val count) fun id new old held => ?_
      have below : old.val < start.val := tracked.lt_nextId identity held
      have least := (mem_consecutive ..).mp new
      exact Fin.lt_def.mpr (by omega)
  | cut size =>
    simp only [truncate]
    split
    · exact .cut (by simpa using List.take_prefix size index.ids.toList)
    · exact .refl _

theorem step_fitIndex (index : IndexColumn) (rows : Nat) :
    index.Step (Frame.fitIndex rows index).2 := by
  simp only [Frame.fitIndex]
  split
  · exact .cut rows
  · exact .extended (rows - index.size)

end IndexColumn

/-! ## Steps of a table -/

namespace Frame

variable {frame next : Frame} {index : IndexColumn}

/-- A step of a table that brings no index column and takes none away.  Columns of data may change
    in any way that leaves them columns of data, whether the change is made or refused. -/
inductive Step (frame : Frame) : Frame → Prop where
  | appendRow (texts : List String) : Step frame (appendRow texts frame).2
  | updateIndex : Step frame frame.updateIndex.2
  | add {column : Column} (data : column.isIndex = false) : Step frame (frame.add column)
  | drop {header : String}
      (data : ∀ column rest, frame.drop? header = some (column, rest) → column.isIndex = false) :
      Step frame ((frame.drop? header).elim frame Prod.snd)
  | dropAt {position : Nat}
      (data : ∀ column, frame.column? position = some column → column.isIndex = false) :
      Step frame (dropAt position frame).2
  | edit {position : Nat} {change : Column → Column}
      (data : ∀ column, frame.column? position = some column →
        column.isIndex = false ∧ (change column).isIndex = false) :
      Step frame (frame.modifyAt position change)
  | truncate (position size : Nat) : Step frame (frame.modifyAt position (·.truncate size))

theorem exists_around {columns : List Column} {position : Nat} {column : Column}
    (there : columns[position]? = some column) :
    ∃ before rest, columns = before ++ column :: rest ∧ columns.eraseIdx position = before ++ rest ∧
      ∀ change, columns.modify position change = before ++ change column :: rest := by
  induction columns generalizing position with
  | nil => contradiction
  | cons first columns inductionHypothesis =>
    cases position with
    | zero =>
      obtain rfl : first = column := by simpa using there
      exact ⟨[], columns, rfl, rfl, fun _ => rfl⟩
    | succ position =>
      obtain ⟨before, rest, split, erased, modified⟩ := inductionHypothesis (by simpa using there)
      refine ⟨first :: before, rest, ?_, ?_, fun change => ?_⟩
      · rw [split]
        rfl
      · rw [List.eraseIdx_cons_succ, erased]
        rfl
      · rw [List.modify_succ_cons, modified]
        rfl

theorem indexes_eraseIdx {position : Nat} {column : Column}
    (there : frame.column? position = some column) (data : column.isIndex = false) :
    (⟨frame.columns.eraseIdx position⟩ : Frame).indexes = frame.indexes := by
  obtain ⟨before, rest, split, erased, _⟩ := exists_around there
  have none := Column.index?_eq_none_iff.mpr data
  simp only [indexes, erased]
  rw [split]
  simp [none]

theorem indexes_modifyAt {position : Nat} {change : Column → Column} {column : Column}
    (there : frame.column? position = some column) (data : column.isIndex = false)
    (data' : (change column).isIndex = false) :
    (frame.modifyAt position change).indexes = frame.indexes := by
  obtain ⟨before, rest, split, _, modified⟩ := exists_around there
  have none := Column.index?_eq_none_iff.mpr data
  have none' := Column.index?_eq_none_iff.mpr data'
  simp only [indexes, modifyAt, modified]
  rw [split]
  simp [none, none']

theorem modifyAt_of_none {position : Nat} {change : Column → Column}
    (absent : frame.column? position = none) : frame.modifyAt position change = frame := by
  rw [modifyAt, List.modify_eq_self (List.getElem?_eq_none_iff.mp absent)]

theorem only_truncated {position : Nat} {other : IndexColumn} (only : frame.indexes = [index])
    (there : frame.column? position = some (.index other)) (size : Nat) :
    (frame.modifyAt position (·.truncate size)).indexes = [index.truncate size] := by
  obtain ⟨before, rest, split, _, modified⟩ := exists_around there
  have around :
      before.filterMap Column.index? ++ other :: rest.filterMap Column.index? = [index] := by
    rw [← only, indexes, split, List.filterMap_append]
    rfl
  -- The column at the position is an index column, so it is the only one.
  rcases List.append_eq_singleton_iff.mp around with ⟨first, last⟩ | ⟨_, none⟩
  · rw [List.cons.injEq] at last
    rw [← last.1]
    simp only [indexes, modifyAt, modified, List.filterMap_append, first, List.nil_append]
    show other.truncate size :: rest.filterMap Column.index? = [other.truncate size]
    rw [last.2]
  · contradiction

theorem only_appended {texts : List String} (only : frame.indexes = [index])
    (appended : RowAppended texts frame next) :
    ∃ id, index.nextId = .ok id ∧ next.indexes = [index.push id] := by
  obtain ⟨id, identity, named'⟩ := appended.index?_eq (index?_of_indexes_eq only)
  refine ⟨id, identity, ?_⟩
  have length := appended.length_indexes
  rw [only] at length
  obtain ⟨single, only'⟩ := List.length_eq_one_iff.mp length
  rw [index?_of_indexes_eq only'] at named'
  rw [only', Option.some.inj named']

theorem only_updated {answer : Except TableError Unit} (only : frame.indexes = [index])
    (updated : frame.Updated (answer, next)) :
    ∃ index', next.indexes = [index'] ∧ index.Step index' := by
  cases updated with
  | inserted unnamed =>
    rw [unnamed] at only
    contradiction
  | bare named bare => exact ⟨index, only, .idle⟩
  | @fitted before rest first_index split first data =>
    obtain ⟨columns⟩ := frame
    subst split
    rw [indexes_of_first first, List.cons.injEq] at only
    obtain ⟨rfl, none⟩ := only
    exact ⟨_, (indexes_of_first first _).trans (congrArg (List.cons _) none),
      first_index.step_fitIndex _⟩

/-- A step of a table with one index column comes to a step of that column. -/
theorem Step.index_step (step : frame.Step next) (only : frame.indexes = [index]) :
    ∃ index', next.indexes = [index'] ∧ index.Step index' := by
  -- Most steps leave the index column alone, which is a step of it as well.
  have same : ∀ {other : Frame}, other.indexes = frame.indexes →
      ∃ index', other.indexes = [index'] ∧ index.Step index' :=
    fun equal => ⟨index, equal.trans only, .idle⟩
  cases step with
  | appendRow texts =>
    rcases appendRow_cases texts frame with ⟨after, accepted, _, appended⟩ | ⟨cause, refused, _⟩
    · obtain ⟨id, identity, only'⟩ := only_appended only appended
      rw [accepted]
      exact ⟨_, only', .named identity⟩
    · rw [refused]
      exact same rfl
  | updateIndex => exact only_updated only (updateIndex_updated frame)
  | @add column data =>
    apply same
    simp [indexes, Frame.add, Column.index?_eq_none_iff.mpr data]
  | @drop header data =>
    cases found : frame.drop? header with
    | none => exact same rfl
    | some dropped =>
      obtain ⟨column, rest⟩ := dropped
      have kept := data column rest found
      simp only [drop?] at found
      split at found
      next position _ =>
        split at found
        next there =>
          obtain ⟨rfl, rfl⟩ := Prod.mk.inj (Option.some.inj found)
          exact same (indexes_eraseIdx there kept)
        next => contradiction
      next => contradiction
  | @dropAt position data =>
    simp only [Frame.dropAt]
    split
    next column there => exact same (indexes_eraseIdx there (data column there))
    next => exact same rfl
  | @edit position change data =>
    cases there : frame.column? position with
    | none => exact same (by rw [modifyAt_of_none there])
    | some column =>
      obtain ⟨before, after⟩ := data column there
      exact same (indexes_modifyAt there before after)
  | truncate position size =>
    cases there : frame.column? position with
    | none => exact same (by rw [modifyAt_of_none there])
    | some column =>
      cases column with
      | index other => exact ⟨_, only_truncated only there size, .cut size⟩
      | plain | categorical => exact same (indexes_modifyAt there rfl rfl)

/-! ## A run -/

/-- After any steps a table with one index column still has one, which is built as such columns are
    and holds no identity twice. -/
theorem identities_run {later : Frame} (only : frame.indexes = [index]) (built : index.Built)
    (unique : index.ids.toList.Nodup) (run : Relation.ReflTransGen Step frame later) :
    ∃ current, later.indexes = [current] ∧ current.Built ∧ current.ids.toList.Nodup := by
  -- `Built` is what goes along: from it a step knows the greatest identity and so what is fresh.
  induction run with
  | refl => exact ⟨index, only, built, unique⟩
  | tail _ step inductionHypothesis =>
    obtain ⟨current, only', built', unique'⟩ := inductionHypothesis
    obtain ⟨next, only'', step'⟩ := step.index_step only'
    exact ⟨next, only'', step'.built built', (step'.follows built'.tracked).nodup unique'⟩

/-- Identities stay unique, and rows keep theirs.  Whatever steps a table with one index column has
    taken, no identity is held by two rows; and each further step keeps the first of the identities,
    or all of them with greater ones behind, so that a row that is there before and after holds the
    same. -/
theorem identities_stable {later : Frame} (only : frame.indexes = [index]) (built : index.Built)
    (unique : index.ids.toList.Nodup) (run : Relation.ReflTransGen Step frame later) :
    ∃ current, later.indexes = [current] ∧ current.ids.toList.Nodup ∧
      ∀ next, later.Step next → ∃ following, next.indexes = [following] ∧
        following.ids.toList.Nodup ∧
        Identity.Follows current.ids.toList following.ids.toList ∧
        ∀ (row : Nat) (id id' : Identity), current.ids[row]? = some id →
          following.ids[row]? = some id' → id' = id := by
  obtain ⟨current, only', built', unique'⟩ := identities_run only built unique run
  refine ⟨current, only', unique', fun next step => ?_⟩
  obtain ⟨following, only'', step'⟩ := step.index_step only'
  have follows := step'.follows built'.tracked
  refine ⟨following, only'', follows.nodup unique', follows, fun row id id' there here => ?_⟩
  rw [← Array.getElem?_toList] at there here
  exact follows.getElem?_eq there here

def unordered : IndexColumn :=
  .ofIds indexHeader [⟨7, by decide⟩, ⟨3, by decide⟩]

def unorderedTable : Frame :=
  ⟨[.index unordered, .categorical (.ofTexts "name" ["a", "b"])]⟩

/-- Where the greater identity stands first and the other is cut off, the next one is above it. -/
theorem identities_stable_cut :
    unorderedTable.indexes = [unordered] ∧ unordered.ids.toList.Nodup ∧
      ∃ current following : IndexColumn, current.ids = #[⟨7, by decide⟩] ∧
        following.ids = #[⟨7, by decide⟩, ⟨8, by decide⟩] ∧
        Identity.Follows current.ids.toList following.ids.toList := by
  have only : unorderedTable.indexes = [unordered] := rfl
  have unique : unordered.ids.toList.Nodup := by decide
  obtain ⟨current, only', _, steps⟩ := identities_stable only (.ofIds indexHeader _) unique
    (.single (.truncate 0 1))
  obtain ⟨following, only'', _, follows, _⟩ := steps _ .updateIndex
  refine ⟨only, unique, current, following, ?_, ?_, follows⟩
  · rw [← (List.cons.inj only').1]
    rfl
  · rw [← (List.cons.inj only'').1]
    decide +kernel

end Frame

end LinkedTables
