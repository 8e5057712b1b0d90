import LinkedTables.Frame.Growth
import LinkedTables.Settings

/-! # Guessing the kinds of columns

A table of texts becomes a frame by guessing a kind for each column.  The cells that are not
blank are tried as 32-bit integers, then as 64-bit integers, then as real numbers; a column that
fits none of these is categorical.  A column of integers with blank cells becomes real, so that
the gaps can be NaN.  Names such as `inf` and `NaN` make a column real only beside at least one
finite number. -/

namespace LinkedTables

def realKind (doublePrecision : Bool) : Kind :=
  .floating (if doublePrecision then .double else .single)

def fits (kind : Kind) (texts : List String) : Bool :=
  texts.all fun text => (kind.read text).isSome

/-- Whether a text reads as a finite number of the wider format. -/
def readsFinite (text : String) : Bool :=
  match Kind.read (.floating .double) text with
  | some x => x.isFinite
  | none => false

def trimmed (text : String) : String :=
  String.ofList (trimBlanks text.toList)

/-- The kind that a list of texts suggests; none for a categorical column. -/
def inferKind (texts : List String) (doublePrecision : Bool) : Option Kind :=
  let present := (texts.map trimmed).filter (· ≠ "")
  let widened (kind : Kind) : Kind :=
    if present.length < texts.length then realKind doublePrecision else kind
  -- Narrow kinds come first: whatever reads as one of them reads as the later ones too.
  if present.isEmpty then none
  else if fits (.signed .w32) present then some (widened (.signed .w32))
  else if fits (.signed .w64) present then some (widened (.signed .w64))
  else if fits (.floating .double) present && present.any readsFinite then
    some (realKind doublePrecision)
  else none

/-- The header of a column that has none, counted from one. -/
def defaultHeader (position : Nat) : String :=
  "Column " ++ toString (position + 1)

def emptyColumn (header : String) : Option Kind → Column
  | some kind => .plain (.fresh header kind 0)
  | none => .categorical (.empty header)

/-- Append texts to a column, up to the first that it refuses. -/
def pushTexts (column : Column) : List String → Except TableError Column
  | [] => .ok column
  | text :: texts =>
    match Column.pushText text column with
    | (.ok (), column) => pushTexts column texts
    | (.error e, _) => .error e

def inferColumn (doublePrecision : Bool) (header : String) (texts : List String) :
    Except TableError Column :=
  pushTexts (emptyColumn header (inferKind texts doublePrecision)) texts

/-- The texts at a position of each row; a row that is too short gives none. -/
def textsAt (rows : List (List String)) (position : Nat) : List String :=
  rows.filterMap (·[position]?)

def inferColumns (doublePrecision : Bool) (rows : List (List String)) (headers : List String) :
    (position count : Nat) → Except TableError (List Column)
  | _, 0 => .ok []
  | position, count + 1 => do
    let header := headers[position]?.getD (defaultHeader position)
    let column ← inferColumn doublePrecision header (textsAt rows position)
    let columns ← inferColumns doublePrecision rows headers (position + 1) count
    return column :: columns

namespace Frame

/-- How many columns a table of texts has: as many as headers, else as many as its first row. -/
def inferredWidth (rows : List (List String)) (headers : List String) : Nat :=
  match headers, rows with
  | [], row :: _ => row.length
  | headers, _ => headers.length

/-- The frame that a table of texts becomes, provided that all rows are equally long. -/
def ofTexts (rows : List (List String)) (headers : List String) (doublePrecision : Bool) :
    Except TableError Frame :=
  let width := inferredWidth rows headers
  match rows.find? (·.length ≠ width) with
  | some row => .error (.columnCount width row.length)
  | none =>
    (inferColumns doublePrecision rows headers 0 width).map Frame.mk

end Frame

end LinkedTables
