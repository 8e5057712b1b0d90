import LinkedTables.Proofs.ColumnContents
import LinkedTables.Proofs.RowAppend
import Mathlib.Data.List.Nodup

/-! # The category table

A categorical column keeps codes and, beside them, the texts they stand for; rows are overwritten and
cut off while the table stays, so the table is not the list of distinct cells.  `Written` says what
has been written to a column, without codes: the texts in the order in which they were registered,
and for each row the text written last.  It determines codes and table through any run of changes,
and everything else is read off it: the table lists the registered texts in first-seen order, and as
long as there are codes for all of them a row shows what was written to it.

The look-up of a text is a search through the table.  `Interned` keeps it as a map instead, which
`addCategory` alone adds to; the two agree through any run. -/

namespace LinkedTables

theorem nodup_eraseDups (texts : List String) : texts.eraseDups.Nodup := by
  induction texts using List.reverseRecOn with
  | nil => exact List.nodup_nil
  | append_singleton texts text inductionHypothesis =>
    by_cases known : text ∈ texts
    · rwa [eraseDups_concat_of_mem known]
    · rw [eraseDups_concat_of_not_mem known, List.nodup_append]
      refine ⟨inductionHypothesis, List.pairwise_singleton _ text, fun other member same here => ?_⟩
      rw [List.mem_singleton.mp here]
      rintro rfl
      exact known (List.mem_eraseDups.mp member)

theorem Code.val_ofPlace {place : Nat} (bound : place < Width.count .w32) :
    (ofPlace place).val = place :=
  Nat.mod_eq_of_lt bound

namespace CategoricalColumn

/-! ## Changes and what they write -/

/-- How a column begins: without rows, with rows of the empty text, or with given texts. -/
inductive Origin where
  | empty
  | blank (size : Nat)
  | ofTexts (texts : List String)

def Origin.column (header : String) : Origin → CategoricalColumn
  | .empty => .empty header
  | .blank size => .blank header size
  | .ofTexts texts => .ofTexts header texts

/-- A change of a column, whether it is made or refused. -/
inductive Change where
  | rename (header : String)
  | addCategory (text : String)
  | add (text : String)
  | set (row : Nat) (text : String)
  | truncate (size : Nat)

def Change.apply : Change → CategoricalColumn → CategoricalColumn
  | .rename header, column => { column with header }
  | .addCategory text, column => (column.addCategory text).2
  | .add text, column => (column.add text).2
  | .set row text, column => (column.set row text).2
  | .truncate size, column => column.truncate size

/-- The texts that were registered, in order and with repetitions, and the text written last to each
    row. -/
structure Written where
  seen : List String
  rows : List String

def Origin.written : Origin → Written
  | .empty => ⟨[], []⟩
  | .blank size => ⟨if size = 0 then [] else [""], List.replicate size ""⟩
  | .ofTexts texts => ⟨texts, texts⟩

/-- What a change writes.  A row that is not there is not written to, and its text is not
    registered. -/
def Change.record : Change → Written → Written
  | .rename _, written => written
  | .addCategory text, ⟨seen, rows⟩ => ⟨seen ++ [text], rows⟩
  | .add text, ⟨seen, rows⟩ => ⟨seen ++ [text], rows ++ [text]⟩
  | .set row text, ⟨seen, rows⟩ =>
    if row < rows.length then ⟨seen ++ [text], rows.set row text⟩ else ⟨seen, rows⟩
  | .truncate size, ⟨seen, rows⟩ => ⟨seen, rows.take size⟩

/-- What has been written after further changes. -/
def Written.after (written : Written) (changes : List Change) : Written :=
  changes.foldl (fun written change => change.record written) written

/-- What changes leave behind, one after the other. -/
def changed (column : CategoricalColumn) (changes : List Change) : CategoricalColumn :=
  changes.foldl (fun column change => change.apply column) column

/-! ## What has been written determines the column -/

/-- The column that stores what has been written. -/
structure Stores (written : Written) (column : CategoricalColumn) : Prop where
  categories : column.categories.toList = written.seen.eraseDups
  codes : column.codes.toList =
    written.rows.map fun text => Code.ofPlace (written.seen.eraseDups.idxOf text)
  registered : ∀ text ∈ written.rows, text ∈ written.seen

variable {written : Written} {column next later : CategoricalColumn} {text : String} {code : Code}

/-- A text that is registered has the place of its first registration, and the table gains it if it
    was not known. -/
theorem addCategory_eq {seen : List String} (table : column.categories.toList = seen.eraseDups)
    (text : String) :
    column.addCategory text =
      (Code.ofPlace ((seen ++ [text]).eraseDups.idxOf text),
        { column with categories := (seen ++ [text]).eraseDups.toArray }) := by
  obtain ⟨header, codes, categories⟩ := column
  obtain rfl : categories = seen.eraseDups.toArray := by rw [← table]
  by_cases known : text ∈ seen
  · have found : seen.eraseDups.toArray.idxOf? text = some (seen.eraseDups.idxOf text) := by
      rw [List.idxOf?_toArray, List.idxOf?_eq_some_iff]
      have bound := List.idxOf_lt_length_of_mem (List.mem_eraseDups.mpr known)
      exact ⟨bound, by simp, fun place before => by simpa using List.not_of_lt_findIdx before⟩
    simp only [addCategory, codeOf?, found, Option.map_some, eraseDups_concat_of_mem known]
  · have absent : seen.eraseDups.toArray.idxOf? text = none := by simpa using known
    have place : (seen.eraseDups ++ [text]).idxOf text = seen.eraseDups.length := by
      rw [List.idxOf_append, if_neg (by simpa using known)]
      simp
    simp only [addCategory, codeOf?, absent, Option.map_none, eraseDups_concat_of_not_mem known,
      place, List.size_toArray, List.push_toArray]

namespace Stores

/-- Registering a text moves no code. -/
theorem codes_concat (stores : Stores written column) (text : String) :
    column.codes.toList = written.rows.map fun other =>
      Code.ofPlace ((written.seen ++ [text]).eraseDups.idxOf other) := by
  rw [stores.codes]
  refine List.map_congr_left fun other member => ?_
  rw [idxOf_eraseDups_concat (stores.registered other member)]

theorem size_eq (stores : Stores written column) : column.size = written.rows.length := by
  have lengths := congrArg List.length stores.codes
  simpa [size] using lengths

theorem apply (stores : Stores written column) (change : Change) :
    Stores (change.record written) (change.apply column) := by
  cases change with
  | rename header => exact ⟨stores.categories, stores.codes, stores.registered⟩
  | addCategory text =>
    rw [Change.apply, addCategory_eq stores.categories]
    exact ⟨rfl, stores.codes_concat text,
      fun other member => List.mem_append_left _ (stores.registered other member)⟩
  | add text =>
    rw [Change.apply, add, addCategory_eq stores.categories]
    refine ⟨rfl, ?_, fun other member => ?_⟩
    · simp only [Array.toList_push, Change.record, List.map_append, List.map_singleton,
        stores.codes_concat text]
    · rcases List.mem_append.mp member with before | here
      · exact List.mem_append_left _ (stores.registered other before)
      · exact List.mem_append_right _ here
  | set row text =>
    simp only [Change.apply, Change.record, CategoricalColumn.set, stores.size_eq]
    split
    next inside =>
      -- The row exists, so the text is registered before it is written.
      rw [addCategory_eq stores.categories]
      refine ⟨rfl, ?_, fun other member => ?_⟩
      · simp only [Array.toList_setIfInBounds, List.map_set, stores.codes_concat text]
      · rcases List.mem_or_eq_of_mem_set member with before | rfl
        · exact List.mem_append_left _ (stores.registered other before)
        · exact List.mem_append_right _ (List.mem_singleton_self other)
    next => exact stores
  | truncate size =>
    refine ⟨stores.categories, ?_, fun other member => ?_⟩
    · simp only [Change.apply, truncate, Change.record, List.map_take, ← stores.codes]
      simp
    · exact stores.registered other (List.mem_of_mem_take member)

theorem changed (stores : Stores written column) (changes : List Change) :
    Stores (written.after changes) (column.changed changes) := by
  induction changes generalizing written column with
  | nil => exact stores
  | cons change changes inductionHypothesis => exact inductionHypothesis (stores.apply change)

end Stores

theorem stores_empty (header : String) : Stores ⟨[], []⟩ (.empty header) :=
  ⟨rfl, rfl, List.forall_mem_nil _⟩

theorem after_added (texts before : List String) :
    Written.after ⟨before, before⟩ (texts.map .add) = ⟨before ++ texts, before ++ texts⟩ := by
  induction texts generalizing before with
  | nil => simp [Written.after]
  | cons text texts inductionHypothesis =>
    have rest := inductionHypothesis (before ++ [text])
    rwa [List.append_assoc, List.singleton_append] at rest

theorem ofTexts_eq_changed (header : String) (texts : List String) :
    ofTexts header texts = (empty header).changed (texts.map .add) := by
  rw [ofTexts, CategoricalColumn.changed, List.foldl_map]
  rfl

theorem stores_origin (header : String) (origin : Origin) :
    Stores origin.written (origin.column header) := by
  cases origin with
  | empty => exact stores_empty header
  | blank size =>
    simp only [Origin.written, Origin.column, blank]
    split
    next none =>
      subst none
      exact stores_empty header
    next some =>
      have bare : (empty header).categories.toList = ([] : List String).eraseDups := rfl
      rw [addCategory_eq bare]
      refine ⟨rfl, ?_, fun text member => ?_⟩
      · rw [Array.toList_replicate, List.map_replicate]
        rfl
      · rw [List.eq_of_mem_replicate member]
        exact List.mem_singleton_self ""
  | ofTexts texts =>
    have stores := (stores_empty header).changed (texts.map .add)
    rwa [after_added, List.nil_append, ← ofTexts_eq_changed] at stores

/-! ## What is read off -/

theorem codeOf?_eq_some_idxOf? : column.codeOf? text = some code ↔
    ∃ place, column.categories.toList.idxOf? text = some place ∧ Code.ofPlace place = code := by
  rw [codeOf?, ← List.idxOf?_toArray, Option.map_eq_some_iff]

theorem codeOf?_push (unknown : column.codeOf? text = none) (other : String) :
    codeOf? { column with categories := column.categories.push text } other =
      if text = other then some (Code.ofPlace column.categories.size)
      else column.codeOf? other := by
  have absent : column.categories.toList.idxOf? text = none := by
    rw [← List.idxOf?_toArray]
    exact Option.map_eq_none_iff.mp unknown
  have table : (column.categories.push text).idxOf? other =
      (column.categories.toList ++ [text]).idxOf? other := by
    rw [← Array.toList_push, ← List.idxOf?_toArray]
  have before : column.codeOf? other =
      (column.categories.toList.idxOf? other).map Code.ofPlace := by
    rw [codeOf?, ← List.idxOf?_toArray]
  rw [codeOf?, table, before, List.idxOf?, List.findIdx?_append]
  split
  next same =>
    subst same
    rw [← List.idxOf?, absent]
    simp
  next other_ne =>
    simp [other_ne]

theorem codeOf?_addCategory (column : CategoricalColumn) (text : String) :
    (column.addCategory text).2.codeOf? text = some (column.addCategory text).1 := by
  rw [addCategory]
  cases known : column.codeOf? text with
  | some code => exact known
  | none => exact (codeOf?_push known text).trans (if_pos rfl)

theorem addCategory_known (known : column.codeOf? text = some code) :
    column.addCategory text = (code, column) := by
  rw [addCategory, known]

/-- A row that is not there is refused, and its text is not registered. -/
theorem set_error_iff {row : Nat} {cause : TableError} :
    (column.set row text).1 = .error cause ↔
      column.size ≤ row ∧ column.set row text = (.error cause, column) := by
  rw [CategoricalColumn.set]
  split
  next inside =>
    constructor
    · intro refused
      contradiction
    · rintro ⟨beyond, _⟩
      exact absurd inside (Nat.not_lt.mpr beyond)
  next beyond =>
    constructor
    · rintro ⟨⟩
      exact ⟨Nat.not_lt.mp beyond, rfl⟩
    · rintro ⟨_, outcome⟩
      exact congrArg Prod.fst outcome

namespace Stores

/-- Every stored code is that of a category, however many categories there are. -/
theorem code_lt (stores : Stores written column) (member : code ∈ column.codes) :
    code.val < column.categories.size := by
  rw [← Array.mem_toList_iff, stores.codes, List.mem_map] at member
  obtain ⟨text, inside, rfl⟩ := member
  have place := List.idxOf_lt_length_of_mem
    (List.mem_eraseDups.mpr (stores.registered text inside))
  rw [← Array.length_toList, stores.categories]
  exact Nat.lt_of_le_of_lt (Nat.mod_le ..) place

theorem nodup (stores : Stores written column) : column.categories.toList.Nodup :=
  stores.categories ▸ nodup_eraseDups written.seen

/-- While there are codes for all categories, the code of a text is its place in the table. -/
theorem codeOf?_eq_some_iff (stores : Stores written column)
    (coded : column.categories.size ≤ Width.count .w32) :
    column.codeOf? text = some code ↔ column.categories[code.val]? = some text := by
  rw [codeOf?_eq_some_idxOf?, ← Array.getElem?_toList]
  rw [← Array.length_toList] at coded
  constructor
  · rintro ⟨place, known, rfl⟩
    obtain ⟨bound, there, _⟩ := List.idxOf?_eq_some_iff.mp known
    rw [Code.val_ofPlace (Nat.lt_of_lt_of_le bound coded)]
    exact List.getElem?_eq_some_iff.mpr ⟨bound, there⟩
  · intro there
    obtain ⟨bound, equal⟩ := List.getElem?_eq_some_iff.mp there
    refine ⟨code.val, List.idxOf?_eq_some_iff.mpr ⟨bound, equal, fun place before same => ?_⟩,
      Fin.ext (Code.val_ofPlace code.isLt)⟩
    -- The table holds no text twice.
    have twice := (List.Nodup.getElem_inj_iff stores.nodup).mp (same.trans equal.symm)
    exact Nat.ne_of_lt before twice

theorem text_eq_ok_iff (stores : Stores written column)
    (coded : column.categories.size ≤ Width.count .w32) {row : Nat} :
    column.text row = .ok text ↔ written.rows[row]? = some text := by
  have stored : column.codes[row]? = written.rows[row]?.map fun text =>
      Code.ofPlace (written.seen.eraseDups.idxOf text) := by
    rw [← Array.getElem?_toList, stores.codes, List.getElem?_map]
  cases there : written.rows[row]? with
  | none => simp [CategoricalColumn.text, stored, there]
  | some other =>
    have known := List.mem_eraseDups.mpr (stores.registered other (List.mem_of_getElem? there))
    have bound := List.idxOf_lt_length_of_mem known
    have place : column.categories[written.seen.eraseDups.idxOf other]? = some other := by
      rw [← Array.getElem?_toList, stores.categories, List.getElem?_idxOf known]
    rw [← Array.length_toList, stores.categories] at coded
    have code := Code.val_ofPlace (Nat.lt_of_lt_of_le bound coded)
    simp [CategoricalColumn.text, stored, there, code, place]

theorem text_error_iff (stores : Stores written column)
    (coded : column.categories.size ≤ Width.count .w32) {row : Nat} :
    (∃ cause, column.text row = .error cause) ↔ column.size ≤ row := by
  rw [stores.size_eq, ← List.getElem?_eq_none_iff]
  cases shown : column.text row with
  | ok text =>
    have there := (stores.text_eq_ok_iff coded).mp shown
    simp [there]
  | error cause =>
    cases there : written.rows[row]? with
    | none => simp
    | some text =>
      rw [(stores.text_eq_ok_iff coded).mpr there] at shown
      contradiction

end Stores

/-! ## The table grows at its end -/

theorem prefix_apply (column : CategoricalColumn) (change : Change) :
    column.categories.toList <+: (change.apply column).categories.toList := by
  have registers : ∀ text,
      column.categories.toList <+: (column.addCategory text).2.categories.toList := by
    intro text
    simp only [addCategory]
    split
    · exact List.prefix_rfl
    · rw [Array.toList_push]
      exact List.prefix_append ..
  cases change with
  | rename | truncate => exact List.prefix_rfl
  | addCategory text | add text => exact registers text
  | set row text =>
    simp only [Change.apply, CategoricalColumn.set]
    split
    · exact registers text
    · exact List.prefix_rfl

theorem prefix_changed (column : CategoricalColumn) (changes : List Change) :
    column.categories.toList <+: (column.changed changes).categories.toList := by
  induction changes generalizing column with
  | nil => exact List.prefix_rfl
  | cons change changes inductionHypothesis =>
    exact (prefix_apply column change).trans (inductionHypothesis _)

theorem codeOf?_of_grown (grows : column.categories.toList <+: later.categories.toList)
    (known : column.codeOf? text = some code) : later.codeOf? text = some code := by
  obtain ⟨place, found, coded⟩ := codeOf?_eq_some_idxOf?.mp known
  obtain ⟨bound, there, first⟩ := List.idxOf?_eq_some_iff.mp found
  obtain ⟨new, table⟩ := grows
  refine codeOf?_eq_some_idxOf?.mpr ⟨place, ?_, coded⟩
  rw [← table, List.idxOf?_eq_some_iff]
  refine ⟨List.length_append ▸ Nat.lt_add_right _ bound, ?_, fun other before => ?_⟩
  · rwa [List.getElem_append_left bound]
  · rw [List.getElem_append_left (Nat.lt_trans before bound)]
    exact first other before

/-! ## The look-up kept as a map -/

/-- A column with the codes of its categories in a map, to which only `addCategory` adds. -/
structure Interned where
  column : CategoricalColumn
  lookup : Std.HashMap String Code

namespace Interned

def empty (header : String) : Interned :=
  ⟨.empty header, ∅⟩

/-- The code of a text, which enters the table and the map if the map does not have it. -/
def addCategory (interned : Interned) (text : String) : Code × Interned :=
  match interned.lookup[text]? with
  | some code => (code, interned)
  | none =>
    let code := Code.ofPlace interned.column.categories.size
    (code,
      { column := { interned.column with categories := interned.column.categories.push text }
        lookup := interned.lookup.insert text code })

def withCodes (interned : Interned) (codes : Array Code) : Interned :=
  { interned with column := { interned.column with codes } }

def add (interned : Interned) (text : String) : Interned :=
  let (code, interned) := interned.addCategory text
  interned.withCodes (interned.column.codes.push code)

def apply : Change → Interned → Interned
  | .rename header, interned => { interned with column := { interned.column with header } }
  | .addCategory text, interned => (interned.addCategory text).2
  | .add text, interned => interned.add text
  | .set row text, interned =>
    if row < interned.column.size then
      let (code, interned) := interned.addCategory text
      interned.withCodes (interned.column.codes.setIfInBounds row code)
    else interned
  | .truncate size, interned => interned.withCodes (interned.column.codes.take size)

def ofOrigin (header : String) : Origin → Interned
  | .empty => empty header
  | .blank size =>
    if size = 0 then empty header
    else
      let (code, interned) := (empty header).addCategory ""
      interned.withCodes (Array.replicate size code)
  | .ofTexts texts => texts.foldl add (empty header)

def changed (interned : Interned) (changes : List Change) : Interned :=
  changes.foldl (fun interned change => apply change interned) interned

/-- The same column, and a map that answers as the search through its table does. -/
structure Agrees (interned : Interned) (column : CategoricalColumn) : Prop where
  same : interned.column = column
  lookup : ∀ text, interned.lookup[text]? = column.codeOf? text

variable {interned : Interned}

theorem Agrees.addCategory (agrees : interned.Agrees column) (text : String) :
    (interned.addCategory text).1 = (column.addCategory text).1 ∧
      (interned.addCategory text).2.Agrees (column.addCategory text).2 := by
  obtain ⟨rfl, lookup⟩ := agrees
  rw [Interned.addCategory, CategoricalColumn.addCategory, lookup]
  cases known : interned.column.codeOf? text with
  | some code => exact ⟨rfl, rfl, lookup⟩
  | none =>
    refine ⟨rfl, rfl, fun other => ?_⟩
    rw [codeOf?_push known, ← lookup]
    show (interned.lookup.insert text _)[other]? = _
    rw [Std.HashMap.getElem?_insert]
    simp only [beq_iff_eq]

theorem Agrees.withCodes (agrees : interned.Agrees column) (codes : Array Code) :
    (interned.withCodes codes).Agrees { column with codes } := by
  obtain ⟨rfl, lookup⟩ := agrees
  exact ⟨rfl, lookup⟩

theorem Agrees.add (agrees : interned.Agrees column) (text : String) :
    (interned.add text).Agrees (column.add text).2 := by
  obtain ⟨code, registered⟩ := agrees.addCategory text
  simp only [Interned.add, CategoricalColumn.add, code, registered.same]
  exact registered.withCodes _

theorem Agrees.apply (agrees : interned.Agrees column) (change : Change) :
    (Interned.apply change interned).Agrees (change.apply column) := by
  cases change with
  | rename header =>
    obtain ⟨rfl, lookup⟩ := agrees
    exact ⟨rfl, lookup⟩
  | addCategory text => exact (agrees.addCategory text).2
  | add text => exact agrees.add text
  | set row text =>
    obtain ⟨code, registered⟩ := agrees.addCategory text
    simp only [Interned.apply, Change.apply, CategoricalColumn.set, agrees.same]
    split
    next =>
      rw [code, registered.same]
      exact registered.withCodes _
    next => exact agrees
  | truncate size =>
    simp only [Interned.apply, agrees.same]
    exact agrees.withCodes _

theorem Agrees.changed (agrees : interned.Agrees column) (changes : List Change) :
    (interned.changed changes).Agrees (column.changed changes) := by
  induction changes generalizing interned column with
  | nil => exact agrees
  | cons change changes inductionHypothesis => exact inductionHypothesis (agrees.apply change)

theorem agrees_empty (header : String) : (empty header).Agrees (.empty header) := by
  refine ⟨rfl, fun text => ?_⟩
  have unknown : (CategoricalColumn.empty header).codeOf? text = none := by
    simp [codeOf?, CategoricalColumn.empty]
  rw [unknown, empty, Std.HashMap.getElem?_empty]

theorem agrees_origin (header : String) (origin : Origin) :
    (ofOrigin header origin).Agrees (origin.column header) := by
  have bare := agrees_empty header
  cases origin with
  | empty => exact bare
  | blank size =>
    obtain ⟨code, registered⟩ := bare.addCategory ""
    simp only [ofOrigin, Origin.column, blank]
    split
    next => exact bare
    next =>
      rw [code]
      exact registered.withCodes _
  | ofTexts texts =>
    have added := bare.changed (texts.map .add)
    rwa [← ofTexts_eq_changed, Interned.changed, List.foldl_map] at added

end Interned

/-! ## Runs -/

/-- What a step comes to at a column: a change of it, made directly, by a value or a text pushed
    through `Column`, or by a row appended to a table that the column stands in; or nothing, where
    the value or the row is refused. -/
inductive Step (column : CategoricalColumn) : Option Change → CategoricalColumn → Prop where
  | direct (change : Change) : Step column (some change) (change.apply column)
  | pushed {value : Value} {answer : Except TableError Unit} {next : CategoricalColumn}
      (outcome : Column.push value (.categorical column) = (answer, .categorical next)) :
      Step column (value.text?.map .add) next
  | pushedText {text : String} {answer : Except TableError Unit} {next : CategoricalColumn}
      (outcome : Column.pushText text (.categorical column) = (answer, .categorical next)) :
      Step column (some (.add text)) next
  | rowAppended {texts : List String} {before after : Frame} {position : Nat} {text : String}
      {next : CategoricalColumn} (accepted : Frame.appendRow texts before = (.ok (), after))
      (there : before.columns[position]? = some (.categorical column))
      (slot : (before.slots texts)[position]? = some (some text))
      (here : after.columns[position]? = some (.categorical next)) :
      Step column (some (.add text)) next
  | rowRefused {texts : List String} {before after : Frame} {cause : TableError} {position : Nat}
      {next : CategoricalColumn} (refused : Frame.appendRow texts before = (.error cause, after))
      (there : before.columns[position]? = some (.categorical column))
      (here : after.columns[position]? = some (.categorical next)) :
      Step column none next

/-- However a text reaches a column, it is added. -/
theorem Step.eq_changed {change? : Option Change} (step : column.Step change? next) :
    next = column.changed change?.toList := by
  cases step with
  | direct change => rfl
  | @pushed value answer next outcome =>
    cases value with
    | text text | cell kind content =>
      cases outcome
      rfl
  | pushedText outcome =>
    cases outcome
    rfl
  | rowAppended accepted there slot here =>
    obtain ⟨id, slot', value, _, slot_eq, cell, grown⟩ :=
      (Frame.rowAppended_of_ok accepted).at_position there here
    rw [slot, Option.some.injEq] at slot_eq
    subst slot_eq
    -- The text of the slot is what the column reads from it.
    cases cell
    have outcome := grown.push_eq
    cases outcome
    rfl
  | rowRefused refused there here =>
    rw [Frame.eq_of_refused refused, there] at here
    cases here
    rfl

/-- The changes that steps come to, one after the other. -/
inductive Run (start : CategoricalColumn) : List Change → CategoricalColumn → Prop where
  | refl : Run start [] start
  | step {changes : List Change} {column : CategoricalColumn} {change? : Option Change}
      {next : CategoricalColumn} (run : Run start changes column)
      (step : column.Step change? next) : Run start (changes ++ change?.toList) next

theorem Run.eq_changed {changes : List Change} (run : column.Run changes later) :
    later = column.changed changes := by
  induction run with
  | refl => rfl
  | step _ step inductionHypothesis =>
    rw [step.eq_changed, inductionHypothesis, CategoricalColumn.changed, CategoricalColumn.changed,
      CategoricalColumn.changed, List.foldl_append]

/-! ## What holds after any run -/

/-- What is known of a column by what has been written to it. -/
structure Sound (written : Written) (column : CategoricalColumn) : Prop where
  distinct : column.categories.toList.Nodup
  firstSeen : column.categories.toList = written.seen.eraseDups
  known : ∀ text code, column.codeOf? text = some code ↔ column.categories[code.val]? = some text
  inside : ∀ code ∈ column.codes, code.val < column.categories.size
  shows : ∀ row text, column.text row = .ok text ↔ written.rows[row]? = some text
  ends : ∀ row, (∃ cause, column.text row = .error cause) ↔ column.size ≤ row
  registers : ∀ text, (column.addCategory text).2.codeOf? text = some (column.addCategory text).1
  registered : ∀ text code, column.codeOf? text = some code →
    column.addCategory text = (code, column)
  refuses : ∀ row text cause, (column.set row text).1 = .error cause ↔
    column.size ≤ row ∧ column.set row text = (.error cause, column)

theorem Stores.sound (stores : Stores written column)
    (coded : column.categories.size ≤ Width.count .w32) : column.Sound written where
  distinct := stores.nodup
  firstSeen := stores.categories
  known _ _ := stores.codeOf?_eq_some_iff coded
  inside _ member := stores.code_lt member
  shows _ _ := stores.text_eq_ok_iff coded
  ends _ := stores.text_error_iff coded
  registers := codeOf?_addCategory column
  registered _ _ := addCategory_known
  refuses _ _ _ := set_error_iff

/-- Whatever a column began as and whatever has been done to it, as long as no more texts were
    registered than there are codes: its table lists them once each in first-seen order, the look-up
    finds a text exactly at its place, also where it is kept as a map, rows show what was written to
    them last, and nothing that happens later moves a category or changes the code of a text. -/
theorem table_of_writes (header : String) (origin : Origin) {changes : List Change}
    {column : CategoricalColumn} (run : (origin.column header).Run changes column)
    (coded : (origin.written.after changes).seen.eraseDups.length ≤ Width.count .w32) :
    column.Sound (origin.written.after changes) ∧
    (((Interned.ofOrigin header origin).changed changes).column = column ∧
      ∀ (text : String) (code : Code),
        ((Interned.ofOrigin header origin).changed changes).lookup[text]? = some code ↔
          column.categories[code.val]? = some text) ∧
    ∀ more later, column.Run more later →
      column.categories.toList <+: later.categories.toList ∧
      ∀ text code, column.codeOf? text = some code →
        later.codeOf? text = some code ∧ later.categories[code.val]? = some text := by
  -- A run is determined by its changes, so it is enough to look at the column that they leave.
  obtain rfl := run.eq_changed
  have stores := (stores_origin header origin).changed changes
  have agrees := (Interned.agrees_origin header origin).changed changes
  have sound : ((origin.column header).changed changes).Sound (origin.written.after changes) := by
    rw [← stores.categories, Array.length_toList] at coded
    exact stores.sound coded
  refine ⟨sound, ⟨agrees.same, fun text code => ?_⟩, fun more later further => ?_⟩
  · rw [agrees.lookup, sound.known]
  · obtain rfl := further.eq_changed
    have grows := prefix_changed ((origin.column header).changed changes) more
    refine ⟨grows, fun text code known => ⟨codeOf?_of_grown grows known, ?_⟩⟩
    have there := (sound.known text code).mp known
    rw [← Array.getElem?_toList] at there ⊢
    obtain ⟨bound, _⟩ := List.getElem?_eq_some_iff.mp there
    obtain ⟨new, table⟩ := grows
    rw [← table, List.getElem?_append_left bound, there]

/-- The only row that held `b` is overwritten, a row that is not there is refused, and `b` comes back
    under the code that it had. -/
theorem table_of_writes_overwritten :
    (Written.after ⟨["a", "b"], ["a", "b"]⟩ [.set 1 "c", .set 9 "d", .add "b"]).seen.eraseDups.length ≤
        Width.count .w32 ∧
      ∃ column : CategoricalColumn, column.categories.toList = ["a", "b", "c"] ∧
        column.text 1 = .ok "c" ∧ column.text 2 = .ok "b" ∧
        column.codeOf? "b" = some (.ofPlace 1) ∧ column.codeOf? "d" = none := by
  have coded : (Written.after ⟨["a", "b"], ["a", "b"]⟩
      [.set 1 "c", .set 9 "d", .add "b"]).seen.eraseDups.length ≤ Width.count .w32 := by decide
  have started : (Origin.column "name" (.ofTexts ["a", "b"])).Run [] _ := .refl
  have run := ((started.step (.direct (.set 1 "c"))).step (.direct (.set 9 "d"))).step
    (.pushedText (show Column.pushText "b" _ = _ from rfl))
  obtain ⟨sound, _, _⟩ := table_of_writes "name" (.ofTexts ["a", "b"]) run coded
  refine ⟨coded, _, sound.firstSeen, (sound.shows 1 "c").mpr rfl, (sound.shows 2 "b").mpr rfl, ?_, ?_⟩
  · exact (sound.known "b" (.ofPlace 1)).mpr (by decide +kernel)
  · decide +kernel

end CategoricalColumn

end LinkedTables
