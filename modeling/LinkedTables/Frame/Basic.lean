import LinkedTables.Column.Basic

/-! # Frames

A `Frame` is an ordered list of columns, which may differ in kind and in length.  Headers need
not be distinct: a look-up by header finds the first.  The first index column, wherever it
stands, is the one that names the rows. -/

namespace LinkedTables

structure Frame where
  columns : List Column

namespace Frame

/-- The header of an index column that the library makes itself. -/
def indexHeader : String := "index"

def empty : Frame := ⟨[]⟩

def ofSize (size : Nat) : Frame :=
  ⟨[.index (.sequential indexHeader size)]⟩

def add (frame : Frame) (column : Column) : Frame :=
  ⟨frame.columns ++ [column]⟩

def width (frame : Frame) : Nat :=
  frame.columns.length

def longest (columns : List Column) : Nat :=
  columns.foldl (fun rows column => Nat.max rows column.size) 0

/-- The number of rows: the length of the longest column. -/
def rows (frame : Frame) : Nat :=
  longest frame.columns

def isConsistent (frame : Frame) : Bool :=
  frame.columns.all (·.size == frame.rows)

def column? (frame : Frame) (position : Nat) : Option Column :=
  frame.columns[position]?

def position? (frame : Frame) (header : String) : Option Nat :=
  frame.columns.findIdx? (·.header == header)

def named? (frame : Frame) (header : String) : Option Column :=
  frame.columns.find? (·.header == header)

/-- The position of the column that names the rows. -/
def indexPosition? (frame : Frame) : Option Nat :=
  frame.columns.findIdx? Column.isIndex

def index? (frame : Frame) : Option IndexColumn :=
  frame.columns.findSome? Column.index?

def headers (frame : Frame) : List (String × String) :=
  frame.columns.map fun column => (column.header, column.format)

def dropAt (position : Nat) : Edit Frame Column := fun frame =>
  match frame.columns[position]? with
  | some column => (.ok column, ⟨frame.columns.eraseIdx position⟩)
  | none => (.error (.columnOutOfRange position frame.width), frame)

def drop? (frame : Frame) (header : String) : Option (Column × Frame) :=
  match frame.position? header with
  | some position =>
    match frame.columns[position]? with
    | some column => some (column, ⟨frame.columns.eraseIdx position⟩)
    | none => none
  | none => none

/-- Change the column at a position, if there is one. -/
def modifyAt (frame : Frame) (position : Nat) (change : Column → Column) : Frame :=
  ⟨frame.columns.modify position change⟩

/-- The values of a row, all of them or the first refusal. -/
def row (frame : Frame) (texts : Bool) (row : Nat) : Except TableError (List Value) :=
  if row < frame.rows then frame.columns.mapM (·.value texts row)
  else .error (.rowOutOfRange row frame.rows)

def same (a b : Frame) : Bool :=
  a.width == b.width && (a.columns.zip b.columns).all fun (x, y) => x.same y

end Frame

end LinkedTables
