/-! # Settings

The knobs of type inference and of the table summary.  Settings that are loaded are validated;
settings that are built by hand need not be. -/

namespace LinkedTables

/-- Sizes take 64 bits. -/
def sizeBound : Nat := 0x10000000000000000

abbrev Size : Type := Fin sizeBound

structure InferenceSettings where
  doublePrecision : Bool
  sampleRows : Size
  deriving DecidableEq, Repr

structure SummarySettings where
  maxColumns : Size
  abbreviatedColumns : Size
  categoryPreviewChars : Size
  deriving DecidableEq, Repr

structure Settings where
  inference : InferenceSettings
  summary : SummarySettings
  deriving DecidableEq, Repr

def InferenceSettings.default : InferenceSettings :=
  ⟨false, ⟨100, by decide⟩⟩

/-- Up to twenty columns are listed, ten of a wider table; fifty characters of categories. -/
def SummarySettings.default : SummarySettings :=
  ⟨⟨20, by decide⟩, ⟨10, by decide⟩, ⟨50, by decide⟩⟩

def Settings.default : Settings :=
  ⟨.default, .default⟩

inductive SettingsError where
  | notPositive (name : String)
  /-- More columns are listed of a wide table than of one that is not. -/
  | abbreviationTooLong
  | tomlUnreadable
  | tomlUnwritable
  | jsonUnreadable
  deriving DecidableEq, Repr

/-- The wording of a refusal by validation.  Documents that cannot be read or written have no
    fixed wording. -/
def SettingsError.message? : SettingsError → Option String
  | .notPositive name => some ("Value out of range: " ++ name ++ " must be positive")
  | .abbreviationTooLong =>
    some "Invalid settings: abbreviated_columns must not exceed max_columns"
  | .tomlUnreadable | .tomlUnwritable | .jsonUnreadable => none

namespace Settings

def validate (settings : Settings) : Except SettingsError Unit :=
  if settings.inference.sampleRows.val = 0 then .error (.notPositive "sample_rows")
  else if settings.summary.abbreviatedColumns.val = 0 then
    .error (.notPositive "abbreviated_columns")
  else if settings.summary.maxColumns.val < settings.summary.abbreviatedColumns.val then
    .error .abbreviationTooLong
  else if settings.summary.categoryPreviewChars.val = 0 then
    .error (.notPositive "category_preview_chars")
  else .ok ()

def validated (settings : Settings) : Except SettingsError Settings :=
  match settings.validate with
  | .ok () => .ok settings
  | .error e => .error e

end Settings

end LinkedTables
