import LinkedTables.Exchange.Summaries
import LinkedTables.Proofs.IndexLength
import LinkedTables.Proofs.RealReading
import LinkedTables.Proofs.SettingsDocuments
import LinkedTables.Proofs.SummaryTexts

/-! # Summaries as documents come back

A summary is read field by field.  Its counts and texts are read as they were written, and so is every
field that is absent.  A range with an end that is no finite number is not read, and the summary with
it; an extent that is infinite is read as an absent one. -/

namespace LinkedTables

open Json (asFields?_ofMembers)

/-! ## Fields -/

/-- A field that may be absent, read from its document. -/
def Json.readOptional {α : Type} (decode : Json → Option α) : Json → Option (Option α)
  | .null => some none
  | document => (decode document).map some

theorem Json.Fields.optional?_eq {α : Type} (known : List (String × Json)) (name : String)
    (decode : Json → Option α) : optional? ⟨false, known⟩ name decode =
      (known.lookup name).elim (some none) (Json.readOptional decode) := by
  rw [optional?]
  cases known.lookup name with
  | none => rfl
  | some document => cases document <;> rfl

theorem Json.spellable_ofOption {α : Type} {encode : α → Json} (a : Option α)
    (all : ∀ a, (encode a).Spellable) : (ofOption encode a).Spellable := by
  cases a with
  | none => trivial
  | some a => exact all a

@[simp] theorem Json.asCount?_ofInteger {n : Nat} (small : n < Width.count .w64) :
    (Json.ofInteger n).asCount? = some n := by
  have read := Json.asBelow?_ofInteger (⟨n, small⟩ : Fin (Width.count .w64)) (Nat.le_refl _)
  rw [asCount?]
  exact congrArg (Option.map Fin.val) read

@[simp] theorem Json.readOptional_text (text : Option String) :
    Json.readOptional Json.asText? (.ofOption Json.ofText text) = some text := by
  cases text with
  | none => rfl
  | some text =>
    show (Json.asText? (Json.ofText text)).map some = some (some text)
    rw [Json.asText?_ofText]
    rfl

/-- The number that is read where a number may be absent. -/
def rereadReal (x : Option Double) : Option Double :=
  x.bind fun x => (Json.ofReal x).asReal? .double

theorem rereadReal_eq_iff (x : Option Double) : rereadReal x = x ↔ ∀ y ∈ x, y.Restored := by
  cases x with
  | none => simp [rereadReal]
  | some x => simp [rereadReal, Floating.Restored]

/-- A number that is not finite is written like one that is absent. -/
@[simp] theorem Json.readOptional_real (x : Option Double) :
    Json.readOptional (Json.asReal? .double) (.ofOption Json.ofReal x) = some (rereadReal x) := by
  cases x with
  | none => rfl
  | some x =>
    show Json.readOptional _ (Json.ofReal x) = some ((Json.ofReal x).asReal? .double)
    cases written : x.numeral? with
    | none =>
      rw [Json.ofReal, written]
      rfl
    | some numeral =>
      -- What has a numeral is finite, and so it is read as some number.
      have finite : x.isFinite = true := by
        by_contra infinite
        rw [Floating.numeral?_eq_none_iff.mpr (Bool.eq_false_iff.mpr infinite)] at written
        contradiction
      rw [← Floating.asReal?_ofReal_isSome .double x, Json.ofReal, written] at finite
      obtain ⟨y, read⟩ := Option.isSome_iff_exists.mp finite
      rw [Json.ofReal, written]
      show (Json.asReal? .double (.number numeral)).map some = _
      rw [read]
      rfl

/-! ## Ranges -/

namespace Range

/-- Whether both ends are finite. -/
def isFinite (range : Range) : Bool :=
  range.least.isFinite && range.greatest.isFinite

/-- Whether both ends are read as they were written. -/
def Restored (range : Range) : Prop :=
  range.least.Restored ∧ range.greatest.Restored

theorem ofJson?_toJson (range : Range) : ofJson? range.toJson = do
    let least ← (Json.ofReal range.least).asReal? .double
    let greatest ← (Json.ofReal range.greatest).asReal? .double
    return ⟨least, greatest⟩ := by
  have distinct : ["min", "max"].Nodup := by decide
  rw [ofJson?, toJson, asFields?_ofMembers distinct]
  · simp [Json.Fields.required?]
  · rfl

@[simp] theorem ofJson?_isSome (range : Range) : (ofJson? range.toJson).isSome = range.isFinite := by
  rw [ofJson?_toJson, isFinite, ← Floating.asReal?_ofReal_isSome .double range.least,
    ← Floating.asReal?_ofReal_isSome .double range.greatest]
  cases (Json.ofReal range.least).asReal? .double <;>
    cases (Json.ofReal range.greatest).asReal? .double <;> rfl

theorem ofJson?_eq_some_iff (range : Range) :
    ofJson? range.toJson = some range ↔ range.Restored := by
  rw [ofJson?_toJson, Restored, Floating.Restored, Floating.Restored]
  obtain ⟨least, greatest⟩ := range
  cases (Json.ofReal least).asReal? .double <;>
    cases (Json.ofReal greatest).asReal? .double <;> simp

theorem spellable_toJson (range : Range) : range.toJson.Spellable := by
  refine Json.spellable_ofMembers ?_
  simp [Floating.spellable_ofReal]

/-- The range that is read where a range may be absent, unless it is not read. -/
def reread : Option Range → Option (Option Range)
  | some range => (ofJson? range.toJson).map some
  | none => some none

end Range

@[simp] theorem Json.readOptional_range (range : Option Range) :
    Json.readOptional Range.ofJson? (.ofOption Range.toJson range) = Range.reread range := by
  cases range <;> rfl

/-! ## Columns -/

namespace ColumnSummary

variable {column : ColumnSummary}

/-- The summary of a column that is read back, unless its range is not. -/
def reread (column : ColumnSummary) : Option ColumnSummary :=
  (Range.reread column.range).map fun range =>
    { column with range, least := rereadReal column.least, greatest := rereadReal column.greatest }

/-- Counts that fit in 64 bits. -/
def Counted (column : ColumnSummary) : Prop :=
  column.position < Width.count .w64 ∧ column.rows < Width.count .w64

theorem ofJson?_toJson (counted : column.Counted) : ofJson? column.toJson = column.reread := by
  obtain ⟨position, rows⟩ := counted
  have distinct : ["position", "header", "format", "rows", "range", "min", "max",
    "categories"].Nodup := by decide
  rw [ofJson?, toJson, asFields?_ofMembers distinct]
  · simp only [Option.bind_eq_bind, Option.bind_some, Json.Fields.required?,
      Json.Fields.optional?_eq, lookup_cons_ite]
    cases read : Range.reread column.range <;>
      simp [position, rows, reread, read]
  · rfl

theorem spellable_toJson (column : ColumnSummary) : column.toJson.Spellable := by
  refine Json.spellable_ofMembers ?_
  simp [Json.spellable_ofInteger, Json.spellable_ofText, Json.spellable_ofOption,
    Range.spellable_toJson, Floating.spellable_ofReal]

theorem reread_isSome (column : ColumnSummary) :
    column.reread.isSome = true ↔ ∀ range ∈ column.range, range.isFinite = true := by
  rw [reread, Option.isSome_map]
  cases column.range with
  | none => simp [Range.reread]
  | some range => simp [Range.reread]

/-- Only numbers are read otherwise than they were written. -/
theorem alike_of_reread {back : ColumnSummary} (read : column.reread = some back) :
    column.Alike back := by
  obtain ⟨range, _, rfl⟩ := Option.map_eq_some_iff.mp read
  rfl

/-- What holds of every real number of a column's summary. -/
def EveryReal (P : Double → Prop) (column : ColumnSummary) : Prop :=
  (∀ range ∈ column.range, P range.least ∧ P range.greatest) ∧
    (∀ x ∈ column.least, P x) ∧ ∀ x ∈ column.greatest, P x

theorem reread_eq_some_iff (column : ColumnSummary) :
    column.reread = some column ↔ column.EveryReal Floating.Restored := by
  have ranges : Range.reread column.range = some column.range ↔
      ∀ range ∈ column.range, range.Restored := by
    cases column.range with
    | none => simp [Range.reread]
    | some range => simp [Range.reread, Range.ofJson?_eq_some_iff]
  rw [EveryReal, ← rereadReal_eq_iff, ← rereadReal_eq_iff]
  refine Iff.trans ?_ (and_congr_left' ranges)
  obtain ⟨position, header, format, rows, range, least, greatest, categories⟩ := column
  rw [reread, Option.map_eq_some_iff]
  simp

end ColumnSummary

/-! ## Summaries -/

namespace Summary

variable {summary : Summary}

/-- Counts that fit in 64 bits. -/
def Counted (summary : Summary) : Prop :=
  summary.columnCount < Width.count .w64 ∧ summary.rowCount < Width.count .w64 ∧
    ∀ column ∈ summary.columns, column.Counted

theorem ofJson?_toJson (counted : summary.Counted) : ofJson? summary.toJson =
    (summary.columns.mapM ColumnSummary.reread).map fun columns => { summary with columns } := by
  obtain ⟨columnCount, rowCount, listed⟩ := counted
  have distinct : ["num_columns", "num_rows", "consistent", "columns"].Nodup := by decide
  have read : Json.asList? ColumnSummary.ofJson?
      (.array (summary.columns.map ColumnSummary.toJson)) =
        summary.columns.mapM ColumnSummary.reread := by
    rw [Json.asList?, List.mapM_map]
    exact mapM_congr fun column member => ColumnSummary.ofJson?_toJson (listed column member)
  rw [ofJson?, toJson, asFields?_ofMembers distinct]
  · simp only [Option.bind_eq_bind, Option.bind_some, Json.Fields.required?, lookup_cons_ite]
    cases columns : summary.columns.mapM ColumnSummary.reread <;>
      simp [columnCount, rowCount, Json.asTruth?, read, columns]
  · rfl

theorem spellable_toJson (summary : Summary) : summary.toJson.Spellable := by
  have columns : (Json.array (summary.columns.map ColumnSummary.toJson)).Spellable := by
    refine Json.spellable_array fun document member => ?_
    obtain ⟨column, _, rfl⟩ := List.mem_map.mp member
    exact column.spellable_toJson
  exact Json.spellable_ofMembers (by simpa [Json.spellable_ofInteger, Json.Spellable] using columns)

/-- The summary that is read from the document of a summary. -/
def readBack (summary : Summary) : Option Summary :=
  (Json.parse summary.toJson.compact).bind ofJson?

theorem readBack_eq (counted : summary.Counted) : summary.readBack =
    (summary.columns.mapM ColumnSummary.reread).map fun columns => { summary with columns } := by
  rw [readBack, Json.parse_compact summary.spellable_toJson, Option.bind_some, ofJson?_toJson counted]

theorem readBack_isSome_iff (counted : summary.Counted) : summary.readBack.isSome = true ↔
    ∀ column ∈ summary.columns, ∀ range ∈ column.range, range.isFinite = true := by
  rw [readBack_eq counted, Option.isSome_map, mapM_isSome_iff]
  exact forall₂_congr fun column _ => column.reread_isSome

theorem readBack_eq_some_iff (counted : summary.Counted) : summary.readBack = some summary ↔
    ∀ column ∈ summary.columns, column.EveryReal Floating.Restored := by
  have whole : summary.readBack = some summary ↔
      summary.columns.mapM ColumnSummary.reread = some summary.columns := by
    rw [readBack_eq counted, Option.map_eq_some_iff]
    constructor
    · rintro ⟨columns, read, same⟩
      rw [read, ← same]
    · exact fun read => ⟨summary.columns, read, rfl⟩
  rw [whole, mapM_eq_some_iff, List.forall₂_same]
  exact forall₂_congr fun column _ => column.reread_eq_some_iff

/-- Only numbers of columns are read otherwise than they were written. -/
theorem exists_alike_of_readBack {back : Summary} (counted : summary.Counted)
    (read : summary.readBack = some back) :
    ∃ columns, List.Forall₂ ColumnSummary.Alike summary.columns columns ∧
      back = { summary with columns } := by
  rw [readBack_eq counted, Option.map_eq_some_iff] at read
  obtain ⟨columns, read, same⟩ := read
  have alike : List.Forall₂ ColumnSummary.Alike summary.columns columns :=
    (mapM_eq_some_iff.mp read).imp fun _ _ => ColumnSummary.alike_of_reread
  exact ⟨columns, alike, same.symm⟩

/-- A summary that is read back omits as many columns, and is told from the one that was written by
    its text. -/
theorem display?_readBack {back : Summary} (counted : summary.Counted)
    (few : summary.columns.length ≤ summary.columnCount) (read : summary.readBack = some back) :
    back.omitted? = summary.omitted? ∧ (back.display? = summary.display? ↔ back = summary) := by
  obtain ⟨columns, alike, rfl⟩ := exists_alike_of_readBack counted read
  refine ⟨by rw [omitted?, omitted?, alike.length_eq], (display?_eq_iff few alike).trans ?_⟩
  exact ⟨fun same => by rw [same], fun same => congrArg Summary.columns same⟩

end Summary

/-! ## Summaries of frames -/

/-- What holds of every real number that is told about a column. -/
def Column.EveryReal (P : Double → Prop) (column : Column) : Prop :=
  (∀ range ∈ column.range, P range.least ∧ P range.greatest) ∧
    ∀ extent ∈ column.extent, P extent.1 ∧ P extent.2

theorem Column.EveryReal.imp {P Q : Double → Prop} (imp : ∀ x, P x → Q x) {column : Column}
    (every : column.EveryReal P) : column.EveryReal Q :=
  ⟨fun range there => (every.1 range there).imp (imp _) (imp _),
    fun extent there => (every.2 extent there).imp (imp _) (imp _)⟩

namespace Summary

variable {settings : SummarySettings} {position : Nat} {columns : List Column}

theorem ofColumns_eq_mapIdx (settings : SummarySettings) (position : Nat) (columns : List Column) :
    ofColumns settings position columns =
      columns.mapIdx fun index column =>
        ColumnSummary.ofColumn settings (position + index) column := by
  induction columns generalizing position with
  | nil => rfl
  | cons column columns inductionHypothesis =>
    rw [ofColumns, List.mapIdx_cons, inductionHypothesis]
    simp only [Nat.add_zero, Nat.add_assoc, Nat.add_comm 1]

theorem mem_ofColumns_iff {entry : ColumnSummary} :
    entry ∈ ofColumns settings position columns ↔ ∃ index, ∃ inside : index < columns.length,
      ColumnSummary.ofColumn settings (position + index) columns[index] = entry := by
  rw [ofColumns_eq_mapIdx, List.mem_mapIdx]

/-- What is said about columns, without their positions, is said about their summaries. -/
theorem forall_mem_ofColumns_iff {P : ColumnSummary → Prop} {Q : Column → Prop}
    (same : ∀ position column, P (.ofColumn settings position column) ↔ Q column) :
    (∀ entry ∈ ofColumns settings position columns, P entry) ↔ ∀ column ∈ columns, Q column := by
  constructor
  · intro all column member
    obtain ⟨index, inside, rfl⟩ := List.getElem_of_mem member
    exact (same _ _).mp (all _ (mem_ofColumns_iff.mpr ⟨index, inside, rfl⟩))
  · intro all entry member
    obtain ⟨index, inside, rfl⟩ := mem_ofColumns_iff.mp member
    exact (same _ _).mpr (all _ (List.getElem_mem inside))

theorem everyReal_ofColumn (P : Double → Prop) (settings : SummarySettings) (position : Nat)
    (column : Column) :
    (ColumnSummary.ofColumn settings position column).EveryReal P ↔ column.EveryReal P := by
  rw [ColumnSummary.EveryReal, Column.EveryReal, ColumnSummary.ofColumn]
  cases column.extent <;> simp

theorem counted_ofFrame {frame : Frame} (settings : SummarySettings)
    (width : frame.width < Width.count .w64) (rows : frame.rows < Width.count .w64) :
    (ofFrame frame settings).Counted := by
  refine ⟨width, rows, fun entry member => ?_⟩
  obtain ⟨index, inside, rfl⟩ := mem_ofColumns_iff.mp member
  have shown : index < frame.width :=
    Nat.lt_of_lt_of_le inside (List.length_take_le' _ _)
  constructor
  · exact (Nat.zero_add index).symm ▸ Nat.lt_trans shown width
  · have listed := List.mem_of_mem_take (List.getElem_mem inside)
    exact Nat.lt_of_le_of_lt (Frame.size_le_longest listed) rows

/-- The summary of a frame is read back just if the ranges of the listed columns are finite; it then
    omits as many columns, and has the same text just if every number of the listed columns is read
    as it was written, which it is if it is short. -/
theorem readBack_ofFrame (frame : Frame) (settings : SummarySettings)
    (width : frame.width < Width.count .w64) (rows : frame.rows < Width.count .w64) :
    let summary := ofFrame frame settings
    let shown := frame.columns.take (listed settings frame.width)
    (summary.readBack.isSome = true ↔
      ∀ column ∈ shown, ∀ range ∈ column.range, range.isFinite = true) ∧
    summary.omitted? = some (frame.width - shown.length) ∧
    (∀ back, summary.readBack = some back → back.omitted? = summary.omitted? ∧
      (back.display? = summary.display? ↔
        ∀ column ∈ shown, column.EveryReal Floating.Restored)) ∧
    ((∀ column ∈ shown, column.EveryReal Floating.Short) → summary.readBack = some summary) := by
  intro summary shown
  have counted := counted_ofFrame settings width rows
  have length : summary.columns.length = shown.length := length_ofColumns settings 0 shown
  -- A summary that is made lists no more columns than it counts.
  have few : summary.columns.length ≤ summary.columnCount :=
    length ▸ List.length_take_le' _ _
  have restored : summary.readBack = some summary ↔
      ∀ column ∈ shown, column.EveryReal Floating.Restored :=
    (readBack_eq_some_iff counted).trans (forall_mem_ofColumns_iff (everyReal_ofColumn _ settings))
  refine ⟨?_, ?_, fun back read => ?_, fun short => restored.mpr fun column member => ?_⟩
  · exact (readBack_isSome_iff counted).trans (forall_mem_ofColumns_iff fun _ _ => Iff.rfl)
  · rw [omitted?, if_pos few, length]
    rfl
  · obtain ⟨omitted, displayed⟩ := display?_readBack counted few read
    refine ⟨omitted, displayed.trans ?_⟩
    rw [← restored, read, Option.some_inj]
  · exact (short column member).imp fun _ => Floating.Short.restored

def half : Double :=
  .number false ⟨0x3FE0000000000000, by decide⟩

def measured : Column :=
  .plain { PlainColumn.ofBuffer "load" ⟨.floating .double, #[half]⟩ with
    customRange := some ⟨.zero false, half⟩ }

/-- The numbers of a column of data and of a range set by hand come back. -/
theorem readBack_ofFrame_measured :
    (ofFrame ⟨[measured]⟩ .default).readBack = some (ofFrame ⟨[measured]⟩ .default) := by
  have shortZero : Floating.Short (.zero false : Double) :=
    ⟨⟨false, ['0'], ['0'], none⟩, by decide +kernel, by decide, by decide, nofun⟩
  have shortHalf : half.Short :=
    ⟨⟨false, ['0'], ['5'], none⟩, by decide +kernel, by decide, by decide, nofun⟩
  refine (readBack_ofFrame ⟨[measured]⟩ .default (by decide) (by decide)).2.2.2 fun column member => ?_
  obtain rfl := List.mem_singleton.mp (show column ∈ [measured] from member)
  constructor
  · rintro range ⟨⟩
    exact ⟨shortZero, shortHalf⟩
  · have extent : measured.extent = some (half, half) := by decide +kernel
    rw [extent]
    rintro extent ⟨⟩
    exact ⟨shortHalf, shortHalf⟩

/-- An infinite cell is written as `null`: as an end of the range it is not read, and as the least
    and the greatest number it is read as none. -/
theorem readBack_infinite :
    let column : PlainColumn := .ofBuffer "load" ⟨.floating .double, #[.infinite false]⟩
    let summary := ofFrame ⟨[.plain column]⟩ .default
    (ofFrame ⟨[.plain column.computeRange]⟩ .default).readBack = none ∧
      ∃ back, summary.readBack = some back ∧ back.display? ≠ summary.display? := by
  intro column summary
  have extent : (Column.plain column).extent = some (.infinite false, .infinite false) := rfl
  constructor
  · have counted : (ofFrame ⟨[.plain column.computeRange]⟩ .default).Counted :=
      counted_ofFrame .default (by decide) (by decide)
    have range : (Column.plain column.computeRange).range =
        some ⟨.infinite false, .infinite false⟩ := rfl
    refine Option.not_isSome_iff_eq_none.mp fun read => ?_
    have finite := (readBack_isSome_iff counted).mp read _ (List.mem_singleton.mpr rfl) _ range
    exact Bool.false_ne_true finite
  · have counted : summary.Counted := counted_ofFrame .default (by decide) (by decide)
    have least : (ColumnSummary.ofColumn .default 0 (.plain column)).least = some (.infinite false) :=
      congrArg (Option.map Prod.fst) extent
    have read := (readBack_isSome_iff counted).mpr fun entry member => by
      obtain rfl := List.mem_singleton.mp (show entry ∈ [_] from member)
      nofun
    obtain ⟨back, read⟩ := Option.isSome_iff_exists.mp read
    refine ⟨back, read, fun same => ?_⟩
    -- With the same text the summary would be the same, and the infinite number read as it was.
    obtain rfl := (display?_readBack counted (by decide) read).2.mp same
    have every := (readBack_eq_some_iff counted).mp read _ (List.mem_singleton.mpr rfl)
    exact Bool.false_ne_true (every.2.1 _ least).isFinite

end Summary

end LinkedTables
