import LinkedTables.Cell.Value
import LinkedTables.Column.Error

/-! # Categorical columns

A categorical column stores a code per row and, once, the text of each code.  The category
table lists the texts in the order in which they were first seen; a text that is known keeps
its code, and the table only grows at its end. -/

namespace LinkedTables

abbrev Code : Type := Unsigned .w32

/-- The code that stands for a place in the table.  Codes repeat after `2 ^ 32` categories. -/
def Code.ofPlace (place : Nat) : Code :=
  ⟨place % Width.count .w32, Nat.mod_lt _ (by decide)⟩

/-- A header, the codes under it, and the texts they stand for. -/
structure CategoricalColumn where
  header : String
  codes : Array Code
  categories : Array String
  deriving DecidableEq

namespace CategoricalColumn

def empty (header : String) : CategoricalColumn :=
  ⟨header, #[], #[]⟩

def size (column : CategoricalColumn) : Nat :=
  column.codes.size

def codeOf? (column : CategoricalColumn) (text : String) : Option Code :=
  (column.categories.idxOf? text).map Code.ofPlace

/-- The code of a text, which becomes a category if it was none. -/
def addCategory (column : CategoricalColumn) (text : String) : Code × CategoricalColumn :=
  match column.codeOf? text with
  | some code => (code, column)
  | none =>
    (Code.ofPlace column.categories.size,
      { column with categories := column.categories.push text })

def add (column : CategoricalColumn) (text : String) : Code × CategoricalColumn :=
  let (code, column) := column.addCategory text
  (code, { column with codes := column.codes.push code })

def ofTexts (header : String) (texts : List String) : CategoricalColumn :=
  texts.foldl (fun column text => (column.add text).2) (empty header)

/-- A column of rows that all hold the empty text; without rows it has no category either. -/
def blank (header : String) (size : Nat) : CategoricalColumn :=
  if size = 0 then empty header
  else
    let (code, column) := (empty header).addCategory ""
    { column with codes := Array.replicate size code }

def set (row : Nat) (text : String) : Edit CategoricalColumn Code := fun column =>
  if row < column.size then
    let (code, column) := column.addCategory text
    (.ok code, { column with codes := column.codes.setIfInBounds row code })
  else (.error (.rowOutOfRange row column.size), column)

def code (column : CategoricalColumn) (row : Nat) : Except TableError Code :=
  match column.codes[row]? with
  | some code => .ok code
  | none => .error (.rowOutOfRange row column.size)

def text (column : CategoricalColumn) (row : Nat) : Except TableError String :=
  match column.codes[row]? with
  | some code =>
    match column.categories[code.val]? with
    | some text => .ok text
    | none => .error (.rowOutOfRange row column.size)
  | none => .error (.rowOutOfRange row column.size)

/-- Keep at most `size` rows; the categories stay. -/
def truncate (column : CategoricalColumn) (size : Nat) : CategoricalColumn :=
  { column with codes := column.codes.take size }

end CategoricalColumn

end LinkedTables
