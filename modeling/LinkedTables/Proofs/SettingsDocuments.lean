import LinkedTables.Exchange.Settings
import LinkedTables.Proofs.DocumentRecords
import LinkedTables.Proofs.TomlLines
import LinkedTables.Summary

/-! # Settings come back

Settings are read as they were written, in either language, and are validated when they are read.  So
what is loaded is valid however it was written, and a listing that is abbreviated by it lists a column
and leaves one out. -/

namespace LinkedTables

variable {settings : Settings}

/-! ## Documents -/

section Json

open Json (Fields asFields?_ofMembers asBelow?_ofInteger spellable_ofMembers spellable_ofInteger)

@[simp] theorem asSize?_ofInteger (size : Size) : (Json.ofInteger size.val).asBelow? sizeBound = some size :=
  asBelow?_ofInteger size (Nat.le_refl _)

@[simp] theorem InferenceSettings.ofJson?_toJson (settings : InferenceSettings) :
    ofJson? settings.toJson = some settings := by
  have distinct : ["double_precision", "sample_rows"].Nodup := by decide
  rw [ofJson?, toJson, asFields?_ofMembers distinct]
  · simp [Fields.defaulted?, Json.asTruth?]
  · rfl

@[simp] theorem SummarySettings.ofJson?_toJson (settings : SummarySettings) :
    ofJson? settings.toJson = some settings := by
  have distinct : ["max_columns", "abbreviated_columns", "category_preview_chars"].Nodup := by decide
  rw [ofJson?, toJson, asFields?_ofMembers distinct]
  · simp [Fields.defaulted?]
  · rfl

namespace Settings

@[simp] theorem ofJson?_toJson (settings : Settings) : ofJson? settings.toJson = some settings := by
  have distinct : ["inference", "summary"].Nodup := by decide
  rw [ofJson?, toJson, asFields?_ofMembers distinct]
  · simp [Fields.defaulted?]
  · rfl

theorem spellable_toJson (settings : Settings) : settings.toJson.Spellable := by
  have truth : (Json.truth settings.inference.doublePrecision).Spellable := trivial
  refine spellable_ofMembers ?_
  simp only [List.map_cons, List.map_nil, List.forall_mem_cons, List.not_mem_nil, false_implies,
    implies_true, and_true]
  constructor
  · exact spellable_ofMembers (by simp [truth, spellable_ofInteger])
  · exact spellable_ofMembers (by simp [spellable_ofInteger])

/-- Settings are read from JSON as they were written, if they are valid. -/
theorem readJson_writeJson (settings : Settings) : readJson settings.writeJson = settings.validated := by
  rw [readJson, writeJson, Json.parse_pretty settings.spellable_toJson, Option.bind_some,
    ofJson?_toJson]

end Settings

end Json

/-! ## Lines -/

section Toml

open Toml (Item Entries BareKey ReadsAs EntryLines TableLines)

/-- A size that TOML can hold. -/
def Size.Writable (size : Size) : Prop :=
  size.val < 0x8000000000000000

instance (size : Size) : Decidable size.Writable :=
  inferInstanceAs (Decidable (_ < _))

@[simp] theorem asSize?_integer (size : Size) : (Item.integer size.val).asSize? = some size := by
  have positive : (0 : Int) ≤ size.val ∧ size.val < sizeBound :=
    ⟨Int.natCast_nonneg _, size.isLt⟩
  simp [Item.asSize?, positive]

/-- The entries of inference settings. -/
def InferenceSettings.entries (settings : InferenceSettings) : Entries :=
  [("double_precision".toList, .truth settings.doublePrecision),
    ("sample_rows".toList, .integer settings.sampleRows.val)]

/-- The entries of summary settings. -/
def SummarySettings.entries (settings : SummarySettings) : Entries :=
  [("max_columns".toList, .integer settings.maxColumns.val),
    ("abbreviated_columns".toList, .integer settings.abbreviatedColumns.val),
    ("category_preview_chars".toList, .integer settings.categoryPreviewChars.val)]

/-- The tables of settings. -/
def Settings.tables (settings : Settings) : List (List Char × Entries) :=
  [("inference".toList, settings.inference.entries), ("summary".toList, settings.summary.entries)]

@[simp] theorem InferenceSettings.ofToml?_entries (settings : InferenceSettings) :
    ofToml? (.table .header settings.entries) = some settings := by
  simp [ofToml?, Item.asFields?, entries, Toml.Entries.defaulted?, Item.asTruth?]

@[simp] theorem SummarySettings.ofToml?_entries (settings : SummarySettings) :
    ofToml? (.table .header settings.entries) = some settings := by
  simp [ofToml?, Item.asFields?, entries, Toml.Entries.defaulted?]

namespace Settings

theorem ofToml?_tables (settings : Settings) :
    ofToml? (settings.tables.map fun (name, entries) => (name, .table .header entries)) =
      some settings := by
  simp [ofToml?, tables, Toml.Entries.defaulted?]

theorem reads_size {size : Size} (writable : size.Writable) :
    ReadsAs (toString size.val).toList (.integer size.val) := by
  rw [Nat.toString_eq_ofList_toDigits, String.toList_ofList]
  exact Toml.readsAs_integer writable

theorem entryLines_tomlLine {name value : String} {item : Item} {entries : Entries}
    {rest : List Char} (bare : BareKey name.toList) (reads : ReadsAs value.toList item)
    (others : EntryLines entries rest) :
    EntryLines ((name.toList, item) :: entries) ((tomlLine name value).toList ++ rest) := by
  have line : (tomlLine name value).toList ++ rest =
      name.toList ++ ' ' :: '=' :: ' ' :: (value.toList ++ '\n' :: rest) := by
    simp [tomlLine]
  rw [line]
  exact .cons bare reads others

theorem writeToml_of_writable (writable : ∀ size ∈ settings.sizes, size.Writable) :
    ∃ text, settings.writeToml = .ok (String.ofList text) ∧ TableLines settings.tables text := by
  have small : (settings.sizes.any fun size => decide (0x8000000000000000 ≤ size.val)) = false := by
    simpa [Size.Writable] using writable
  simp only [sizes, List.forall_mem_cons, List.not_mem_nil, false_implies, implies_true,
    and_true] at writable
  -- The lines are those of the entries, table by table, with an empty line between the two.
  obtain ⟨rows, columns, abbreviated, preview⟩ := writable
  have inference : EntryLines settings.inference.entries _ :=
    entryLines_tomlLine (by decide) (Toml.readsAs_truth _)
      (entryLines_tomlLine (by decide) (reads_size rows) .nil)
  have summary : EntryLines settings.summary.entries _ :=
    entryLines_tomlLine (by decide) (reads_size columns)
      (entryLines_tomlLine (by decide) (reads_size abbreviated)
        (entryLines_tomlLine (by decide) (reads_size preview) .nil))
  refine ⟨_, ?_, .cons (by decide) inference (.last (by decide) summary)⟩
  rw [writeToml, if_neg (by rw [small]; decide)]
  refine congrArg Except.ok (String.toList_inj.mp ?_)
  simp

/-- Settings are read from TOML as they were written, if they are valid. -/
theorem readToml_writeToml (writable : ∀ size ∈ settings.sizes, size.Writable) :
    ∃ text, settings.writeToml = .ok text ∧ readToml text = settings.validated := by
  obtain ⟨text, writes, lines⟩ := writeToml_of_writable writable
  refine ⟨_, writes, ?_⟩
  have distinct : (settings.tables.map Prod.fst).Nodup := by
    show ["inference".toList, "summary".toList].Nodup
    decide
  have keys : ∀ table ∈ settings.tables, (table.2.map Prod.fst).Nodup := by
    simp only [tables, List.forall_mem_cons, List.not_mem_nil, false_implies, implies_true, and_true]
    constructor
    · show ["double_precision".toList, "sample_rows".toList].Nodup
      decide
    · show ["max_columns".toList, "abbreviated_columns".toList,
        "category_preview_chars".toList].Nodup
      decide
  rw [readToml, Toml.parse_tables lines distinct keys, Option.bind_some, ofToml?_tables]

theorem writeToml_of_not_writable (large : ¬ ∀ size ∈ settings.sizes, size.Writable) :
    settings.writeToml = .error .tomlUnwritable := by
  have some_large : (settings.sizes.any fun size => decide (0x8000000000000000 ≤ size.val)) = true := by
    simpa [Size.Writable] using large
  rw [writeToml, if_pos some_large]

end Settings

end Toml

/-! ## What is loaded -/

namespace Settings

theorem validated_eq_ok_iff {valid : Settings} :
    settings.validated = .ok valid ↔ settings = valid ∧ valid.validate = .ok () := by
  rw [validated]
  split
  next passes =>
    simp only [Except.ok.injEq]
    constructor
    · rintro rfl
      exact ⟨rfl, passes⟩
    · exact And.left
  next fails =>
    simp only [reduceCtorEq, false_iff]
    rintro ⟨rfl, passes⟩
    rw [passes] at fails
    contradiction

theorem validate_of_readJson {text : String} (read : readJson text = .ok settings) :
    settings.validate = .ok () := by
  rw [readJson] at read
  split at read
  next => exact (validated_eq_ok_iff.mp read).2
  next => contradiction

theorem validate_of_readToml {text : String} (read : readToml text = .ok settings) :
    settings.validate = .ok () := by
  rw [readToml] at read
  split at read
  next => exact (validated_eq_ok_iff.mp read).2
  next => contradiction

theorem validated_of_ok (valid : settings.validate = .ok ()) : settings.validated = .ok settings :=
  validated_eq_ok_iff.mpr ⟨rfl, valid⟩

theorem validated_of_error {cause : SettingsError} (invalid : settings.validate = .error cause) :
    settings.validated = .error cause := by
  rw [validated, invalid]

/-- Valid settings list a column of a wide table, and no more than a table may have. -/
theorem bounds_of_validate (valid : settings.validate = .ok ()) :
    1 ≤ settings.summary.abbreviatedColumns.val ∧
      settings.summary.abbreviatedColumns.val ≤ settings.summary.maxColumns.val := by
  rw [validate] at valid
  split at valid
  next => contradiction
  next =>
  split at valid
  next => contradiction
  next positive =>
  split at valid
  next => contradiction
  next ordered => omega

end Settings

@[simp] theorem Summary.length_ofColumns (settings : SummarySettings) (position : Nat)
    (columns : List Column) : (ofColumns settings position columns).length = columns.length := by
  induction columns generalizing position with
  | nil => rfl
  | cons column columns inductionHypothesis =>
    rw [ofColumns, List.length_cons, inductionHypothesis, List.length_cons]

theorem Summary.length_columns_ofFrame (frame : Frame) (settings : SummarySettings) :
    (ofFrame frame settings).columns.length = min (listed settings frame.width) frame.width := by
  rw [ofFrame, length_ofColumns, List.length_take, Frame.width]

/-- A table is too wide for valid settings only if its listing shows a column and leaves one out. -/
theorem Summary.abbreviated_of_validate (valid : settings.validate = .ok ()) (frame : Frame)
    (wide : settings.summary.maxColumns.val < frame.width) :
    1 ≤ (ofFrame frame settings.summary).columns.length ∧
      ∃ omitted, (ofFrame frame settings.summary).omitted? = some omitted ∧ 1 ≤ omitted := by
  obtain ⟨positive, ordered⟩ := Settings.bounds_of_validate valid
  have length : (ofFrame frame settings.summary).columns.length =
      settings.summary.abbreviatedColumns.val := by
    rw [length_columns_ofFrame, listed, if_pos wide]
    omega
  rw [length]
  refine ⟨positive, frame.width - settings.summary.abbreviatedColumns.val, ?_, by omega⟩
  rw [omitted?, length, if_pos (by show _ ≤ frame.width; omega)]
  rfl

namespace Settings

/-- Settings are read from both languages as they were written, or refused as validation refuses them;
    TOML has no larger sizes.  Whatever text is read, the settings are valid, and in a listing that
    they abbreviate a column is shown and one is left out. -/
theorem documents_validated :
    (∀ settings : Settings,
      (settings.validate = .ok () → readJson settings.writeJson = .ok settings) ∧
      (∀ cause, settings.validate = .error cause → readJson settings.writeJson = .error cause) ∧
      ((∀ size ∈ settings.sizes, size.Writable) → ∃ text, settings.writeToml = .ok text ∧
        (settings.validate = .ok () → readToml text = .ok settings) ∧
        ∀ cause, settings.validate = .error cause → readToml text = .error cause) ∧
      ((∃ size ∈ settings.sizes, ¬ size.Writable) → settings.writeToml = .error .tomlUnwritable)) ∧
    ∀ (text : String) (settings : Settings),
      readJson text = .ok settings ∨ readToml text = .ok settings →
      settings.validate = .ok () ∧
      ∀ frame : Frame, settings.summary.maxColumns.val < frame.width →
        1 ≤ (Summary.ofFrame frame settings.summary).columns.length ∧
        ∃ omitted, (Summary.ofFrame frame settings.summary).omitted? = some omitted ∧
          1 ≤ omitted := by
  constructor
  · intro settings
    refine ⟨fun valid => ?_, fun cause invalid => ?_, fun writable => ?_, fun large => ?_⟩
    · rw [readJson_writeJson, validated_of_ok valid]
    · rw [readJson_writeJson, validated_of_error invalid]
    · obtain ⟨text, writes, reads⟩ := readToml_writeToml writable
      refine ⟨text, writes, fun valid => ?_, fun cause invalid => ?_⟩
      · rw [reads, validated_of_ok valid]
      · rw [reads, validated_of_error invalid]
    · obtain ⟨size, member, tooLarge⟩ := large
      exact writeToml_of_not_writable fun writable => tooLarge (writable size member)
  · intro text settings read
    -- Both readers validate what they have read before they give it back.
    have valid : settings.validate = .ok () := read.elim validate_of_readJson validate_of_readToml
    exact ⟨valid, Summary.abbreviated_of_validate valid⟩

/-- Settings with the greatest size are valid, come back from JSON, and have no TOML text. -/
theorem documents_validated_greatest :
    let settings : Settings := ⟨.default, ⟨Fin.last _, ⟨10, by decide⟩, ⟨50, by decide⟩⟩⟩
    settings.validate = .ok () ∧ readJson settings.writeJson = .ok settings ∧
      settings.writeToml = .error .tomlUnwritable ∧
      (∃ text, Settings.default.writeToml = .ok text ∧ readToml text = .ok .default) ∧
      ∀ frame : Frame, 20 < frame.width →
        1 ≤ (Summary.ofFrame frame .default).columns.length ∧
        ∃ omitted, (Summary.ofFrame frame .default).omitted? = some omitted ∧ 1 ≤ omitted := by
  intro settings
  have valid : settings.validate = .ok () := by decide
  have standard : Settings.default.validate = .ok () := by decide
  obtain ⟨reads, _, _, refused⟩ := documents_validated.1 settings
  obtain ⟨readsStandard, _, writes, _⟩ := documents_validated.1 .default
  have small : ∀ size ∈ Settings.default.sizes, size.Writable := by
    simp [sizes, Size.Writable, default, InferenceSettings.default, SummarySettings.default]
  obtain ⟨text, written, readsText, _⟩ := writes small
  have large : ∃ size ∈ settings.sizes, ¬ size.Writable :=
    ⟨settings.summary.maxColumns, by simp [sizes], by decide⟩
  refine ⟨valid, reads valid, refused large,
    ⟨text, written, readsText standard⟩, ?_⟩
  exact (documents_validated.2 text .default (.inr (readsText standard))).2

end Settings

end LinkedTables
