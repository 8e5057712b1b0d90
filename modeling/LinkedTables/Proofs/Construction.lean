import LinkedTables.Proofs.CategoryTable
import LinkedTables.Proofs.GreatestIdentity
import LinkedTables.Proofs.IndexColumns
import LinkedTables.Proofs.RowByRow
import Mathlib.Logic.Relation

/-! # How columns and frames come about

A column comes about by steps from a fresh one, and a frame from columns, rows and steps of the
columns that it holds.  A step is one call, made or refused, and says what the call leaves behind.
Calls through `Column` come to calls of the kind of column that it is, and the rows and the index of
a frame to calls of its columns, so that what holds of the columns of each kind holds in every
frame. -/

namespace LinkedTables

/-- A step of a plain column.  Cells that are open for a change may be changed in any way. -/
inductive PlainColumn.Step (column : PlainColumn) : PlainColumn → Prop where
  | rename (header : String) : Step column { column with header }
  | computeRange : Step column column.computeRange
  | setCustomRange (range : Option Range) : Step column (column.setCustomRange range)
  | touch : Step column column.touch
  | modify (change : Buffer → Buffer) : Step column (column.modify change)
  | tryModify (change : Buffer → Option Buffer) : Step column (column.tryModify change).2
  | openCells (kind : Kind) : Step column (column.openCells kind).2
  | typed {kind : Kind} {opened : PlainColumn} (opens : column.openCells kind = (.ok (), opened))
      (cells : Array opened.kind.Content) :
      Step column { opened with buffer := ⟨opened.kind, cells⟩ }
  | push (value : Value) : Step column (column.push value).2
  | pushText (text : String) : Step column (column.pushText text).2

namespace Column

/-- A column as it is made. -/
inductive Fresh : Column → Prop where
  | plain (header : String) (buffer : Buffer) : Fresh (.plain (.ofBuffer header buffer))
  | categorical (header : String) (origin : CategoricalColumn.Origin) :
      Fresh (.categorical (origin.column header))
  | index (header : String) (ids : List Identity) : Fresh (.index (.ofIds header ids))

/-- A step of a column, as the kind of column that it is or through `Column`. -/
inductive Step : Column → Column → Prop where
  | plain {column next : PlainColumn} (step : column.Step next) : Step (.plain column) (.plain next)
  | categorical {column next : CategoricalColumn} {change? : Option CategoricalColumn.Change}
      (step : column.Step change? next) : Step (.categorical column) (.categorical next)
  | identity (index : IndexColumn) (id : Identity) : Step (.index index) (.index (index.push id))
  | extend (index : IndexColumn) (count : Nat) :
      Step (.index index) (.index (index.extend count).2)
  | cut (index : IndexColumn) (size : Nat) : Step (.index index) (.index (index.truncate size))
  | rename (column : Column) (header : String) : Step column (column.setHeader header)
  | push (column : Column) (value : Value) : Step column (column.push value).2
  | pushText (column : Column) (text : String) : Step column (column.pushText text).2
  | truncate (column : Column) (size : Nat) : Step column (column.truncate size)

/-- A column that has come about by steps. -/
inductive Built : Column → Prop where
  | fresh {column : Column} (fresh : column.Fresh) : Built column
  | step {column next : Column} (built : Built column) (step : column.Step next) : Built next

variable {column next : Column}

/-! ## Steps through `Column` -/

/-- A plain column stays one, and a step through `Column` is one of its own. -/
theorem Step.of_plain {plain : PlainColumn} (step : Step (.plain plain) next) :
    ∃ plain', next = .plain plain' ∧ plain.Step plain' := by
  cases step with
  | plain step => exact ⟨_, rfl, step⟩
  | rename _ header => exact ⟨_, rfl, .rename header⟩
  | push _ value => exact ⟨_, rfl, .push value⟩
  | pushText _ text =>
    have outcome : (Column.pushText text (.plain plain)).2 = .plain (plain.pushText text).2 := by
      simp only [Column.pushText, Column.read, PlainColumn.pushText]
      cases plain.read text <;> rfl
    exact ⟨_, outcome, .pushText text⟩
  | truncate _ size => exact ⟨_, rfl, .modify (·.truncate size)⟩

theorem Step.of_categorical {categorical : CategoricalColumn}
    (step : Step (.categorical categorical) next) :
    ∃ categorical' change?, next = .categorical categorical' ∧
      categorical.Step change? categorical' := by
  cases step with
  | categorical step => exact ⟨_, _, rfl, step⟩
  | rename _ header => exact ⟨_, _, rfl, .direct (.rename header)⟩
  | push _ value =>
    cases value with
    | text text => exact ⟨_, _, rfl, .direct (.add text)⟩
    | cell kind content =>
      exact ⟨_, _, rfl, .pushed (show Column.push (.cell kind content) _ = _ from rfl)⟩
  | pushText _ text => exact ⟨_, _, rfl, .direct (.add text)⟩
  | truncate _ size => exact ⟨_, _, rfl, .direct (.truncate size)⟩

theorem push_index (value : Value) {index : IndexColumn} (built : index.Built) :
    ∃ index', (Column.push value (.index index)).2 = .index index' ∧ index'.Built := by
  simp only [Column.push]
  split
  next id _ => exact ⟨_, rfl, built.push id⟩
  next => exact ⟨index, rfl, built⟩

theorem Step.of_index {index : IndexColumn} (step : Step (.index index) next)
    (built : index.Built) : ∃ index', next = .index index' ∧ index'.Built := by
  cases step with
  | identity _ id => exact ⟨_, rfl, built.push id⟩
  | extend _ count => exact ⟨_, rfl, built.extend count⟩
  | cut _ size => exact ⟨_, rfl, built.truncate size⟩
  | rename _ header => exact ⟨_, rfl, built.renamed header⟩
  | push _ value => exact push_index value built
  | pushText _ text =>
    simp only [Column.pushText]
    split
    next value _ => exact push_index value built
    next => exact ⟨index, rfl, built⟩
  | truncate _ size => exact ⟨_, rfl, built.truncate size⟩

/-- A column that has come about by steps of its own kind alone. -/
inductive Made : Column → Prop where
  | plain {header : String} {buffer : Buffer} {plain : PlainColumn}
      (run : Relation.ReflTransGen PlainColumn.Step (.ofBuffer header buffer) plain) :
      Made (.plain plain)
  | categorical {header : String} {origin : CategoricalColumn.Origin}
      {changes : List CategoricalColumn.Change} {categorical : CategoricalColumn}
      (run : (origin.column header).Run changes categorical) : Made (.categorical categorical)
  | index {index : IndexColumn} (built : index.Built) : Made (.index index)

theorem Fresh.made (fresh : column.Fresh) : column.Made := by
  cases fresh with
  | plain header buffer => exact .plain .refl
  | categorical header origin => exact .categorical .refl
  | index header ids => exact .index (.ofIds header ids)

theorem Made.step (made : column.Made) (step : column.Step next) : next.Made := by
  cases made with
  | plain run =>
    obtain ⟨_, rfl, own⟩ := step.of_plain
    exact .plain (run.tail own)
  | categorical run =>
    obtain ⟨_, _, rfl, own⟩ := step.of_categorical
    exact .categorical (run.step own)
  | index built =>
    obtain ⟨_, rfl, built⟩ := step.of_index built
    exact .index built

theorem Built.made (built : column.Built) : column.Made := by
  induction built with
  | fresh fresh => exact fresh.made
  | step _ step made => exact made.step step

theorem Grown.built {value : Value} (grown : Grown value column next) (built : column.Built) :
    next.Built := by
  have step := Step.push column value
  rw [grown.push_eq] at step
  exact built.step step

end Column

/-! ## Frames -/

namespace Frame

/-- A frame that has come about by calls, made or refused.  A column at a position may be changed in
    place or replaced by another, and a column taken out of a frame, or a copy of one, may be added
    to any. -/
inductive Built : Frame → Prop where
  | empty : Built .empty
  | ofSize (size : Nat) : Built (.ofSize size)
  | ofTexts {rows : List (List String)} {headers : List String} {doublePrecision : Bool}
      {frame : Frame} (made : ofTexts rows headers doublePrecision = .ok frame) : Built frame
  | add {frame : Frame} {column : Column} (built : Built frame) (made : column.Built) :
      Built (frame.add column)
  | dropAt {frame : Frame} (built : Built frame) (position : Nat) : Built (frame.dropAt position).2
  | drop {frame rest : Frame} {header : String} {column : Column} (built : Built frame)
      (found : frame.drop? header = some (column, rest)) : Built rest
  | step {frame : Frame} {position : Nat} {column next : Column} (built : Built frame)
      (there : frame.column? position = some column) (step : column.Step next) :
      Built (frame.modifyAt position fun _ => next)
  | replace {frame : Frame} {column : Column} (built : Built frame) (position : Nat)
      (made : column.Built) : Built (frame.modifyAt position fun _ => column)
  | appendRow {frame : Frame} (built : Built frame) (texts : List String) :
      Built (frame.appendRow texts).2
  | updateIndex {frame : Frame} (built : Built frame) : Built frame.updateIndex.2

variable {frame : Frame} {column : Column}

theorem fresh_emptyColumn (header : String) (kind? : Option Kind) :
    (emptyColumn header kind?).Fresh := by
  cases kind? with
  | some kind => exact .plain header (.fresh kind 0)
  | none => exact .categorical header .empty

theorem pushTexts_built {texts : List String} {next : Column}
    (pushed : pushTexts column texts = .ok next) (built : column.Built) : next.Built := by
  induction texts generalizing column with
  | nil =>
    cases pushed
    exact built
  | cons text texts inductionHypothesis =>
    have step := Column.Step.pushText column text
    simp only [pushTexts] at pushed
    split at pushed
    next middle outcome =>
      rw [outcome] at step
      exact inductionHypothesis pushed (built.step step)
    next => contradiction

theorem inferColumns_built {doublePrecision : Bool} {rows : List (List String)}
    {headers : List String} {position count : Nat} {columns : List Column}
    (inferred : inferColumns doublePrecision rows headers position count = .ok columns) :
    ∀ column ∈ columns, column.Built := by
  induction count generalizing position columns with
  | zero =>
    cases inferred
    exact List.forall_mem_nil _
  | succ count inductionHypothesis =>
    simp only [inferColumns] at inferred
    cases first : inferColumn doublePrecision (headers[position]?.getD (defaultHeader position))
        (textsAt rows position) with
    | error cause => simp [first, bind, Except.bind] at inferred
    | ok column =>
      cases rest : inferColumns doublePrecision rows headers (position + 1) count with
      | error cause => simp [first, rest, bind, Except.bind] at inferred
      | ok others =>
        obtain rfl : column :: others = columns := by
          simpa [first, rest, bind, Except.bind, pure, Except.pure] using inferred
        exact List.forall_mem_cons.mpr
          ⟨pushTexts_built first (.fresh (fresh_emptyColumn _ _)), inductionHypothesis rest⟩

/-- A row appended lets every column grow, and a refused one changes none. -/
theorem built_appendRow (texts : List String)
    (columns : ∀ column ∈ frame.columns, column.Built) :
    ∀ column ∈ (frame.appendRow texts).2.columns, column.Built := by
  rcases appendRow_cases texts frame with ⟨after, accepted, _, appended⟩ | ⟨cause, refused, _⟩
  · rw [accepted]
    intro next member
    obtain ⟨position, here⟩ := List.mem_iff_getElem?.mp member
    have bound : position < frame.width := by
      rw [← appended.width]
      exact (List.getElem?_eq_some_iff.mp here).1
    have there := List.getElem?_eq_getElem bound
    obtain ⟨_, _, value, _, _, _, grown⟩ := appended.at_position there here
    exact grown.built (columns _ (List.mem_of_getElem? there))
  · rwa [refused]

theorem built_fitIndex {index : IndexColumn} (rows : Nat) (built : (Column.index index).Built) :
    (Column.index (fitIndex rows index).2).Built := by
  simp only [fitIndex]
  split
  · exact built.step (.cut index rows)
  · exact built.step (.extend index _)

theorem built_updateIndex (columns : ∀ column ∈ frame.columns, column.Built) :
    ∀ column ∈ frame.updateIndex.2.columns, column.Built := by
  have outcome := updateIndex_updated frame
  generalize frame.updateIndex = result at outcome ⊢
  cases outcome with
  | inserted unnamed => exact List.forall_mem_cons.mpr ⟨.fresh (.index _ _), columns⟩
  | bare named bare => exact columns
  | fitted split first data =>
    rw [split, List.forall_mem_append, List.forall_mem_cons] at columns
    obtain ⟨before, index, rest⟩ := columns
    exact List.forall_mem_append.mpr
      ⟨before, List.forall_mem_cons.mpr ⟨built_fitIndex _ index, rest⟩⟩

theorem built_modifyAt {next : Column} (position : Nat)
    (columns : ∀ column ∈ frame.columns, column.Built) (made : next.Built) :
    ∀ column ∈ (frame.modifyAt position fun _ => next).columns, column.Built := by
  intro column member
  obtain ⟨other, there⟩ := List.mem_iff_getElem?.mp member
  rw [modifyAt, List.getElem?_modify, Option.map_eq_map, Option.map_eq_some_iff] at there
  obtain ⟨before, present, changed⟩ := there
  split at changed
  · exact changed ▸ made
  · exact columns column (changed ▸ List.mem_of_getElem? present)

theorem Built.columns (built : frame.Built) : ∀ column ∈ frame.columns, column.Built := by
  -- A frame comes about by columns that are made, left out, or taken a step further.
  induction built with
  | empty => exact List.forall_mem_nil _
  | ofSize size => exact List.forall_mem_singleton.mpr (.fresh (.index _ _))
  | @ofTexts rows headers doublePrecision frame made =>
    simp only [Frame.ofTexts] at made
    split at made
    next => contradiction
    next =>
      cases inferred : inferColumns doublePrecision rows headers 0 (inferredWidth rows headers) with
      | error cause => simp [inferred, Except.map] at made
      | ok columns =>
        simp only [inferred, Except.map, Except.ok.injEq] at made
        subst made
        exact inferColumns_built inferred
  | add _ made columns =>
    exact List.forall_mem_append.mpr ⟨columns, List.forall_mem_singleton.mpr made⟩
  | dropAt _ position columns =>
    simp only [Frame.dropAt]
    split
    · exact fun column member => columns column (List.mem_of_mem_eraseIdx member)
    · exact columns
  | drop _ found columns =>
    simp only [drop?] at found
    split at found
    next =>
      split at found
      next =>
        cases found
        exact fun column member => columns column (List.mem_of_mem_eraseIdx member)
      next => contradiction
    next => contradiction
  | step _ there step columns =>
    exact built_modifyAt _ columns ((columns _ (List.mem_of_getElem? there)).step step)
  | replace _ position made columns => exact built_modifyAt position columns made
  | appendRow _ texts columns => exact built_appendRow texts columns
  | updateIndex _ columns => exact built_updateIndex columns

end Frame

end LinkedTables
