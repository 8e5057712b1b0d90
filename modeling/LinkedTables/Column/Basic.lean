import LinkedTables.Column.Plain
import LinkedTables.Column.Categorical
import LinkedTables.Column.Index

/-! # Columns

A column is plain, categorical or an index.  What the three have in common is said here: a
header, a number of rows, a value per row, and appending a value or a text.

A categorical column holds codes and an index column identities, so both have a kind; the
format of a categorical column is nevertheless shown under its own name. -/

namespace LinkedTables

inductive Column where
  | plain (column : PlainColumn)
  | categorical (column : CategoricalColumn)
  | index (column : IndexColumn)

namespace Column

def header : Column → String
  | .plain column => column.header
  | .categorical column => column.header
  | .index column => column.header

def setHeader (header : String) : Column → Column
  | .plain column => .plain { column with header }
  | .categorical column => .categorical { column with header }
  | .index column => .index { column with header }

def size : Column → Nat
  | .plain column => column.size
  | .categorical column => column.size
  | .index column => column.size

@[simp] theorem size_plain (column : PlainColumn) : (plain column).size = column.size := rfl

@[simp] theorem size_categorical (column : CategoricalColumn) :
    (categorical column).size = column.size := rfl

@[simp] theorem size_index (column : IndexColumn) : (index column).size = column.size := rfl

def kind : Column → Kind
  | .plain column => column.kind
  | .categorical _ => .unsigned .w32
  | .index _ => .unsigned .w64

def format : Column → String
  | .categorical _ => "categorical"
  | column => column.kind.name

/-- The range in force; only a plain column has one. -/
def range : Column → Option Range
  | .plain column => column.range
  | _ => none

def contents? (kind : Kind) : Column → Option (Array kind.Content)
  | .plain column => if h : column.buffer.kind = kind then some (h ▸ column.buffer.cells) else none
  | .categorical column => if h : .unsigned .w32 = kind then some (h ▸ column.codes) else none
  | .index column => if h : .unsigned .w64 = kind then some (h ▸ column.ids) else none

/-- The least and the greatest number in the column; codes are not numbers. -/
def extent : Column → Option (Double × Double)
  | .plain column => column.buffer.extent
  | .categorical _ => none
  | .index column => column.extent

/-- The value of a row.  A categorical column gives its text if texts are wanted, else its
    code. -/
def value (texts : Bool) (row : Nat) : Column → Except TableError Value
  | .plain column => column.value row
  | .categorical column =>
    if texts then (column.text row).map Value.text else (column.code row).map Value.ofCode
  | .index column => (column.id row).map Value.ofIdentity

def display (row : Nat) (column : Column) : Except TableError String :=
  (column.value true row).map Value.display

def read (text : String) : Column → Except TableError Value
  | .plain column => column.read text
  | .categorical _ => .ok (.text text)
  | .index column =>
    match Kind.read (.unsigned .w64) text with
    | some id => .ok (.ofIdentity id)
    | none => .error (.notConvertible column.header text (Kind.unsigned .w64).name)

def push (value : Value) : Edit Column Unit
  | .plain column =>
    let (answer, column) := column.push value
    (answer, .plain column)
  | .categorical column =>
    match value with
    | .text text => (.ok (), .categorical (column.add text).2)
    | .cell kind content =>
      (.error (.notConvertible column.header (kind.display content) "categorical"),
        .categorical column)
  | .index column =>
    match value.content? (.unsigned .w64) with
    | some id => (.ok (), .index (column.push id))
    | none =>
      (.error (.notConvertible column.header value.display (Kind.unsigned .w64).name),
        .index column)

def pushText (text : String) : Edit Column Unit := fun column =>
  match column.read text with
  | .ok value => push value column
  | .error e => (.error e, column)

def truncate (size : Nat) : Column → Column
  | .plain column => .plain (column.modify (·.truncate size))
  | .categorical column => .categorical (column.truncate size)
  | .index column => .index (column.truncate size)

def isIndex : Column → Bool
  | .index _ => true
  | _ => false

@[simp] theorem isIndex_plain (column : PlainColumn) : (plain column).isIndex = false := rfl

@[simp] theorem isIndex_categorical (column : CategoricalColumn) :
    (categorical column).isIndex = false := rfl

@[simp] theorem isIndex_index (column : IndexColumn) : (index column).isIndex = true := rfl

def index? : Column → Option IndexColumn
  | .index column => some column
  | _ => none

@[simp] theorem index?_plain (column : PlainColumn) : (plain column).index? = none := rfl

@[simp] theorem index?_categorical (column : CategoricalColumn) :
    (categorical column).index? = none := rfl

@[simp] theorem index?_index (column : IndexColumn) : (index column).index? = some column := rfl

def plain? : Column → Option PlainColumn
  | .plain column => some column
  | _ => none

def categorical? : Column → Option CategoricalColumn
  | .categorical column => some column
  | _ => none

def same : Column → Column → Bool
  | .plain a, .plain b => a.same b
  | .categorical a, .categorical b => a == b
  | .index a, .index b => a == b
  | _, _ => false

end Column

end LinkedTables
