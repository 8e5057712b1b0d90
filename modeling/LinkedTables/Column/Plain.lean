import LinkedTables.Buffer
import LinkedTables.Column.Error
import LinkedTables.Column.Range

/-! # Plain columns

A plain column is a header over a buffer, with two ranges: one computed from the buffer on
request and forgotten at the next access that could change a cell, and one set by hand, which
takes precedence.  The computed range is forgotten when such an access begins, so it is gone
even where the access is then refused. -/

namespace LinkedTables

/-- A header, the cells under it, and the ranges known for them. -/
structure PlainColumn where
  header : String
  buffer : Buffer
  computedRange : Option Range
  customRange : Option Range

namespace PlainColumn

def ofBuffer (header : String) (buffer : Buffer) : PlainColumn :=
  ⟨header, buffer, none, none⟩

def fresh (header : String) (kind : Kind) (size : Nat) : PlainColumn :=
  ofBuffer header (.fresh kind size)

def kind (column : PlainColumn) : Kind :=
  column.buffer.kind

def size (column : PlainColumn) : Nat :=
  column.buffer.size

/-- The range in force: the one set by hand, else the computed one. -/
def range (column : PlainColumn) : Option Range :=
  column.customRange.or column.computedRange

def computeRange (column : PlainColumn) : PlainColumn :=
  { column with
    computedRange := column.buffer.extent.map fun (least, greatest) => ⟨least, greatest⟩ }

def setCustomRange (column : PlainColumn) (range : Option Range) : PlainColumn :=
  { column with customRange := range }

/-- Open the cells for a change: the computed range no longer holds. -/
def touch (column : PlainColumn) : PlainColumn :=
  { column with computedRange := none }

def modify (column : PlainColumn) (change : Buffer → Buffer) : PlainColumn :=
  { column.touch with buffer := change column.buffer }

/-- Try to change the cells; the answer says whether the change was made. -/
def tryModify (column : PlainColumn) (change : Buffer → Option Buffer) : Bool × PlainColumn :=
  match change column.buffer with
  | some buffer => (true, { column.touch with buffer := buffer })
  | none => (false, column.touch)

def read (column : PlainColumn) (text : String) : Except TableError Value :=
  match column.buffer.read text with
  | some value => .ok value
  | none => .error (.notConvertible column.header text column.kind.name)

def value (column : PlainColumn) (row : Nat) : Except TableError Value :=
  match column.buffer.get? row with
  | some value => .ok value
  | none => .error (.rowOutOfRange row column.size)

def push (value : Value) : Edit PlainColumn Unit := fun column =>
  match column.tryModify (·.push? value) with
  | (true, column) => (.ok (), column)
  | (false, column) =>
    (.error (.notConvertible column.header value.display column.kind.name), column)

/-- Open the cells for a change as cells of a given kind. -/
def openCells (kind : Kind) : Edit PlainColumn Unit := fun column =>
  if column.kind = kind then (.ok (), column.touch)
  else (.error (.kindMismatch column.header kind.name column.kind.name), column.touch)

def pushText (text : String) : Edit PlainColumn Unit := fun column =>
  match column.read text with
  | .ok value => push value column
  | .error e => (.error e, column)

/-- Equality of headers, of cells and of both ranges, as numbers. -/
def same (a b : PlainColumn) : Bool :=
  a.header == b.header && a.buffer.same b.buffer
    && Range.same? a.computedRange b.computedRange && Range.same? a.customRange b.customRange

end PlainColumn

end LinkedTables
