import LinkedTables.Json.Decoding
import LinkedTables.Settings
import LinkedTables.Toml.Reader

/-! # Settings as documents

Settings are read from TOML and from JSON, where every field may be absent and unknown fields
are ignored, and what is read is validated.  A record may also be an array of its fields in
order.  TOML has no whole numbers beyond 63 bits, so larger sizes cannot be written there. -/

namespace LinkedTables

/-! ## JSON -/

namespace InferenceSettings

def toJson (settings : InferenceSettings) : Json :=
  .ofMembers
    [("double_precision", .truth settings.doublePrecision),
      ("sample_rows", .ofInteger settings.sampleRows.val)]

def ofJson? (document : Json) : Option InferenceSettings := do
  let fields ← document.asFields? ["double_precision", "sample_rows"]
  let doublePrecision ←
    fields.defaulted? "double_precision" default.doublePrecision Json.asTruth?
  let sampleRows ← fields.defaulted? "sample_rows" default.sampleRows (Json.asBelow? _)
  return ⟨doublePrecision, sampleRows⟩

end InferenceSettings

namespace SummarySettings

def toJson (settings : SummarySettings) : Json :=
  .ofMembers
    [("max_columns", .ofInteger settings.maxColumns.val),
      ("abbreviated_columns", .ofInteger settings.abbreviatedColumns.val),
      ("category_preview_chars", .ofInteger settings.categoryPreviewChars.val)]

def ofJson? (document : Json) : Option SummarySettings := do
  let fields ← document.asFields?
    ["max_columns", "abbreviated_columns", "category_preview_chars"]
  let maxColumns ← fields.defaulted? "max_columns" default.maxColumns (Json.asBelow? _)
  let abbreviatedColumns ←
    fields.defaulted? "abbreviated_columns" default.abbreviatedColumns (Json.asBelow? _)
  let categoryPreviewChars ←
    fields.defaulted? "category_preview_chars" default.categoryPreviewChars (Json.asBelow? _)
  return ⟨maxColumns, abbreviatedColumns, categoryPreviewChars⟩

end SummarySettings

namespace Settings

def toJson (settings : Settings) : Json :=
  .ofMembers [("inference", settings.inference.toJson), ("summary", settings.summary.toJson)]

def ofJson? (document : Json) : Option Settings := do
  let fields ← document.asFields? ["inference", "summary"]
  let inference ← fields.defaulted? "inference" default.inference InferenceSettings.ofJson?
  let summary ← fields.defaulted? "summary" default.summary SummarySettings.ofJson?
  return ⟨inference, summary⟩

def writeJson (settings : Settings) : String :=
  settings.toJson.pretty

def readJson (text : String) : Except SettingsError Settings :=
  match (Json.parse text).bind ofJson? with
  | some settings => settings.validated
  | none => .error .jsonUnreadable

end Settings

/-! ## TOML -/

namespace Toml

/-- The fields of a record with the given names: the entries of a table, or the elements of an
    array in order.  A time has no such entries. -/
def Item.asFields? (names : List String) : Item → Option Entries
  | .table _ entries => some entries
  | .record _ entries => some entries
  | .array elements => some ((names.map String.toList).zip elements)
  | .tables elements =>
    some ((names.map String.toList).zip
      (elements.reverse.map fun (origin, entries) => .table origin entries))
  | .moment => some []
  | _ => none

def Item.asTruth? : Item → Option Bool
  | .truth value => some value
  | _ => none

def Item.asSize? : Item → Option Size
  | .integer i => if h : 0 ≤ i ∧ i.toNat < sizeBound then some ⟨i.toNat, h.2⟩ else none
  | _ => none

/-- A field that has a value of its own where it is absent. -/
def Entries.defaulted? {α : Type} (entries : Entries) (name : String) (value : α)
    (decode : Item → Option α) : Option α :=
  match entries.lookup name.toList with
  | some item => decode item
  | none => some value

end Toml

open Toml (Item Entries)

def InferenceSettings.ofToml? (item : Item) : Option InferenceSettings := do
  let entries ← item.asFields? ["double_precision", "sample_rows"]
  let doublePrecision ←
    entries.defaulted? "double_precision" default.doublePrecision Item.asTruth?
  let sampleRows ← entries.defaulted? "sample_rows" default.sampleRows Item.asSize?
  return ⟨doublePrecision, sampleRows⟩

def SummarySettings.ofToml? (item : Item) : Option SummarySettings := do
  let entries ← item.asFields? ["max_columns", "abbreviated_columns", "category_preview_chars"]
  let maxColumns ← entries.defaulted? "max_columns" default.maxColumns Item.asSize?
  let abbreviatedColumns ←
    entries.defaulted? "abbreviated_columns" default.abbreviatedColumns Item.asSize?
  let categoryPreviewChars ←
    entries.defaulted? "category_preview_chars" default.categoryPreviewChars Item.asSize?
  return ⟨maxColumns, abbreviatedColumns, categoryPreviewChars⟩

namespace Settings

def ofToml? (entries : Entries) : Option Settings := do
  let inference ← entries.defaulted? "inference" default.inference InferenceSettings.ofToml?
  let summary ← entries.defaulted? "summary" default.summary SummarySettings.ofToml?
  return ⟨inference, summary⟩

def readToml (text : String) : Except SettingsError Settings :=
  match (Toml.parse text).bind ofToml? with
  | some settings => settings.validated
  | none => .error .tomlUnreadable

def tomlLine (name value : String) : String :=
  name ++ " = " ++ value ++ "\n"

def sizes (settings : Settings) : List Size :=
  [settings.inference.sampleRows, settings.summary.maxColumns,
    settings.summary.abbreviatedColumns, settings.summary.categoryPreviewChars]

/-- Settings as TOML text, unless a size is too large for it. -/
def writeToml (settings : Settings) : Except SettingsError String :=
  if settings.sizes.any fun size => 0x8000000000000000 ≤ size.val then .error .tomlUnwritable
  else .ok <|
    "[inference]\n"
      ++ tomlLine "double_precision" (if settings.inference.doublePrecision then "true" else "false")
      ++ tomlLine "sample_rows" (toString settings.inference.sampleRows.val)
      ++ "\n[summary]\n"
      ++ tomlLine "max_columns" (toString settings.summary.maxColumns.val)
      ++ tomlLine "abbreviated_columns" (toString settings.summary.abbreviatedColumns.val)
      ++ tomlLine "category_preview_chars" (toString settings.summary.categoryPreviewChars.val)

end Settings

end LinkedTables
