import LinkedTables.Json.Decoding
import LinkedTables.Summary

/-! # Ranges and summaries as documents

A range and a summary are records; every field is written, an absent one as `null`.  Reading
checks the fields one by one and nothing between them, so a document may list more columns than
it counts. -/

namespace LinkedTables

namespace Range

def toJson (range : Range) : Json :=
  .ofMembers [("min", .ofReal range.least), ("max", .ofReal range.greatest)]

def ofJson? (document : Json) : Option Range := do
  let fields ← document.asFields? ["min", "max"]
  let least ← fields.required? "min" (Json.asReal? .double)
  let greatest ← fields.required? "max" (Json.asReal? .double)
  return ⟨least, greatest⟩

end Range

def Json.ofOption {α : Type} (encode : α → Json) : Option α → Json
  | some a => encode a
  | none => .null

def Json.asCount? (document : Json) : Option Nat :=
  (document.asBelow? 0x10000000000000000).map Fin.val

namespace ColumnSummary

def toJson (column : ColumnSummary) : Json :=
  .ofMembers
    [("position", .ofInteger column.position),
      ("header", .ofText column.header),
      ("format", .ofText column.format),
      ("rows", .ofInteger column.rows),
      ("range", .ofOption Range.toJson column.range),
      ("min", .ofOption Json.ofReal column.least),
      ("max", .ofOption Json.ofReal column.greatest),
      ("categories", .ofOption Json.ofText column.categories)]

def ofJson? (document : Json) : Option ColumnSummary := do
  let fields ← document.asFields?
    ["position", "header", "format", "rows", "range", "min", "max", "categories"]
  let position ← fields.required? "position" Json.asCount?
  let header ← fields.required? "header" Json.asText?
  let format ← fields.required? "format" Json.asText?
  let rows ← fields.required? "rows" Json.asCount?
  let range ← fields.optional? "range" Range.ofJson?
  let least ← fields.optional? "min" (Json.asReal? .double)
  let greatest ← fields.optional? "max" (Json.asReal? .double)
  let categories ← fields.optional? "categories" Json.asText?
  return ⟨position, header, format, rows, range, least, greatest, categories⟩

end ColumnSummary

namespace Summary

def toJson (summary : Summary) : Json :=
  .ofMembers
    [("num_columns", .ofInteger summary.columnCount),
      ("num_rows", .ofInteger summary.rowCount),
      ("consistent", .truth summary.isConsistent),
      ("columns", .array (summary.columns.map ColumnSummary.toJson))]

def ofJson? (document : Json) : Option Summary := do
  let fields ← document.asFields? ["num_columns", "num_rows", "consistent", "columns"]
  let columnCount ← fields.required? "num_columns" Json.asCount?
  let rowCount ← fields.required? "num_rows" Json.asCount?
  let isConsistent ← fields.required? "consistent" Json.asTruth?
  let columns ← fields.required? "columns" (Json.asList? ColumnSummary.ofJson?)
  return ⟨columnCount, rowCount, isConsistent, columns⟩

end Summary

end LinkedTables
