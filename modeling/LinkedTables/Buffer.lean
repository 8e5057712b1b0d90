import LinkedTables.Cell.Value

/-! # Buffers

A `Buffer` holds the cells of a plain column, all of one kind.  Operations that are given a
value of another kind refuse it and leave the buffer alone. -/

namespace LinkedTables

structure Buffer where
  kind : Kind
  cells : Array kind.Content

namespace Buffer

def fresh (kind : Kind) (size : Nat) : Buffer :=
  ⟨kind, Array.replicate size kind.fresh⟩

def size (buffer : Buffer) : Nat :=
  buffer.cells.size

def get? (buffer : Buffer) (position : Nat) : Option Value :=
  buffer.cells[position]?.map (Value.cell buffer.kind)

def values (buffer : Buffer) : List Value :=
  buffer.cells.toList.map (Value.cell buffer.kind)

def read (buffer : Buffer) (text : String) : Option Value :=
  (buffer.kind.read text).map (Value.cell buffer.kind)

def push? (buffer : Buffer) (value : Value) : Option Buffer :=
  match value.content? buffer.kind with
  | some content => some { buffer with cells := buffer.cells.push content }
  | none => none

def set? (buffer : Buffer) (position : Nat) (value : Value) : Option Buffer :=
  match value.content? buffer.kind with
  | some content =>
    if h : position < buffer.cells.size then
      some { buffer with cells := buffer.cells.set position content h }
    else none
  | none => none

def truncate (buffer : Buffer) (size : Nat) : Buffer :=
  { buffer with cells := buffer.cells.take size }

/-- Cut off cells, or append fresh ones, until there are `size`. -/
def resize (buffer : Buffer) (size : Nat) : Buffer :=
  { buffer with
    cells := buffer.cells.take size
      ++ Array.replicate (size - buffer.cells.size) buffer.kind.fresh }

/-- Widen an extent by a number; NaN leaves it alone, and a number equal to an end takes its
    place. -/
def widen (extent : Option (Double × Double)) (x : Double) : Option (Double × Double) :=
  if x.isNaN then extent
  else match extent with
    | some (least, greatest) => some (least.lesser x, greatest.greater x)
    | none => some (x, x)

def components (buffer : Buffer) : List Double :=
  buffer.cells.toList.flatMap buffer.kind.components

/-- The least and the greatest component, if there is one that is not NaN; of equal components
    the last one. -/
def extent (buffer : Buffer) : Option (Double × Double) :=
  buffer.components.foldl widen none

/-- Equality of kinds and, as numbers, of cells. -/
def same (a b : Buffer) : Bool :=
  if h : b.kind = a.kind then
    let cells : Array a.kind.Content := h ▸ b.cells
    a.cells.size == cells.size
      && (a.cells.toList.zip cells.toList).all fun (x, y) => a.kind.same x y
  else false

end Buffer

end LinkedTables
