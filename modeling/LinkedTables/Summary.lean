import LinkedTables.Frame.Basic
import LinkedTables.Settings

/-! # Summaries

A `Summary` is what is shown beside a table: its sizes, one entry per listed column, and
whether the columns agree on their length.  `Summary.ofFrame` makes one of a frame, and
`Summary.display` writes it as lines of tab-separated fields.

Summaries are also exchanged as documents, so a summary need not come from a frame: it may list
more columns than it counts, and then nothing can be said about omitted ones. -/

namespace LinkedTables

structure ColumnSummary where
  position : Nat
  header : String
  format : String
  rows : Nat
  range : Option Range
  least : Option Double
  greatest : Option Double
  categories : Option String
  deriving DecidableEq

structure Summary where
  columnCount : Nat
  rowCount : Nat
  isConsistent : Bool
  columns : List ColumnSummary
  deriving DecidableEq

/-! ## Category previews -/

/-- A preview that has grown to `shown`, followed by the categories still to come.  A separator
    is put only after text, and the preview ends with the first category that takes it beyond
    the budget. -/
def growPreview (budget : Nat) (shown : List Char) : List String → List Char
  | [] => shown
  | category :: rest =>
    let shown := (if shown = [] then [] else shown ++ [',', ' ']) ++ category.toList
    if budget < shown.length then
      -- The category that goes beyond the budget is shown in full.
      if rest.isEmpty then shown else shown ++ [',', ' ', '.', '.', '.']
    else growPreview budget shown rest

/-- The first categories of a table, up to a number of characters, and how many there are. -/
def categoryPreview (categories : List String) (budget : Nat) : String :=
  String.ofList (growPreview budget [] categories) ++ " [" ++ toString categories.length ++ "]"

/-! ## Making a summary -/

def ColumnSummary.ofColumn (settings : SummarySettings) (position : Nat) (column : Column) :
    ColumnSummary where
  position := position
  header := column.header
  format := column.format
  rows := column.size
  range := column.range
  least := column.extent.map Prod.fst
  greatest := column.extent.map Prod.snd
  categories := column.categorical?.map fun categorical =>
    categoryPreview categorical.categories.toList settings.categoryPreviewChars.val

namespace Summary

/-- How many columns of a table are listed: all, or a few if there are too many. -/
def listed (settings : SummarySettings) (width : Nat) : Nat :=
  if settings.maxColumns.val < width then settings.abbreviatedColumns.val else width

def ofColumns (settings : SummarySettings) : (position : Nat) → List Column → List ColumnSummary
  | _, [] => []
  | position, column :: columns =>
    ColumnSummary.ofColumn settings position column :: ofColumns settings (position + 1) columns

def ofFrame (frame : Frame) (settings : SummarySettings) : Summary where
  columnCount := frame.width
  rowCount := frame.rows
  isConsistent := frame.isConsistent
  columns := ofColumns settings 0 (frame.columns.take (listed settings frame.width))

/-- How many columns are not listed, unless more are listed than counted. -/
def omitted? (summary : Summary) : Option Nat :=
  if summary.columns.length ≤ summary.columnCount then
    some (summary.columnCount - summary.columns.length)
  else none

/-! ## Text -/

def optionalField (text : Option String) : String :=
  text.getD "-"

def columnLine (column : ColumnSummary) : String :=
  "\t".intercalate
      [toString column.position, column.format, toString column.rows, column.header,
        optionalField (column.range.map Range.display),
        optionalField (column.least.map Floating.display),
        optionalField (column.greatest.map Floating.display)]
    ++ (match column.categories with
      | some categories => "\t" ++ categories
      | none => "")
    ++ "\n"

/-- The text of a summary, which needs the number of omitted columns. -/
def display? (summary : Summary) : Option String :=
  summary.omitted?.map fun omitted =>
    "Number of Columns: " ++ toString summary.columnCount ++ "\n"
      ++ "Number of Rows: " ++ toString summary.rowCount ++ "\n"
      ++ (if summary.isConsistent then "" else "Inconsistent row counts\n")
      ++ "Col\tFormat\tRows\tName\tRange\tMin\tMax\n"
      ++ String.join (summary.columns.map columnLine)
      ++ (if omitted = 0 then "" else "... (" ++ toString omitted ++ " more columns)\n")

end Summary

end LinkedTables
