import LinkedTables.Frame.Basic

/-! # How a frame grows

`Frame.appendRow` appends one row of texts.  It reads every text before it changes any column,
and gives the row the next identity of the column that names the rows; the texts are those of
the other columns.  `Frame.updateIndex` brings the column that names the rows to the length of
the data, and puts one in front of the table if there is none. -/

namespace LinkedTables

namespace Frame

/-- The cells of a new row: one per column, where the column that names the rows, at the
    position `indexAt`, has none yet.  Texts that run out before the columns do are refused: the
    row has not the expected number of them. -/
def readRow (indexAt : Option Nat) (expected actual : Nat) :
    (position : Nat) → List Column → List String → Except TableError (List (Option Value))
  | _, [], _ => .ok []
  | position, column :: columns, texts =>
    if indexAt = some position then do
      let cells ← readRow indexAt expected actual (position + 1) columns texts
      return none :: cells
    else match texts with
      | text :: texts => do
        let value ← column.read text
        let cells ← readRow indexAt expected actual (position + 1) columns texts
        return some value :: cells
      | [] => .error (.columnCount expected actual)

/-- Append the cells of a new row, up to the first refusal. -/
def pushRow (id : Identity) :
    List Column → List (Option Value) → Except TableError Unit × List Column
  | column :: columns, cell :: cells =>
    let (answer, column) := match cell, column with
      | some value, column => column.push value
      | none, .index index => (.ok (), .index (index.push id))
      | none, column => (.ok (), column)
    match answer with
    | .ok () =>
      let (answer, columns) := pushRow id columns cells
      (answer, column :: columns)
    | .error e => (.error e, column :: columns)
  | columns, _ => (.ok (), columns)

/-- How many texts a row has: one for each column but the one that names the rows. -/
def textWidth (frame : Frame) : Nat :=
  frame.width - (if frame.indexPosition?.isSome then 1 else 0)

/-- The identity of the next row; a table without index column has no use for one. -/
def nextId (frame : Frame) : Except TableError Identity :=
  match frame.index? with
  | some index => index.nextId
  | none => .ok Identity.first

def appendRow (texts : List String) : Edit Frame Unit := fun frame =>
  if frame.columns.isEmpty then (.error .noColumns, frame)
  else if texts.length ≠ frame.textWidth then
    (.error (.columnCount frame.textWidth texts.length), frame)
  else match readRow frame.indexPosition? frame.textWidth texts.length 0 frame.columns texts with
    | .error e => (.error e, frame)
    | .ok cells =>
      match frame.nextId with
      | .error e => (.error e, frame)
      | .ok id =>
        -- Every text is read and the identity is known before any column changes.
        let (answer, columns) := pushRow id frame.columns cells
        (answer, ⟨columns⟩)

def fitIndex (rows : Nat) : Edit IndexColumn Unit := fun index =>
  if rows < index.size then (.ok (), index.truncate rows)
  else index.extend (rows - index.size)

def fitFirstIndex (rows : Nat) : List Column → Except TableError Unit × List Column
  | [] => (.ok (), [])
  | .index index :: columns =>
    let (answer, index) := fitIndex rows index
    (answer, .index index :: columns)
  | column :: columns =>
    let (answer, columns) := fitFirstIndex rows columns
    (answer, column :: columns)

/-- Bring the column that names the rows to the length of the data.  Without data columns there
    is nothing to follow; without such a column one is put in front. -/
def updateIndex : Edit Frame Unit := fun frame =>
  let data := frame.columns.filter (!·.isIndex)
  if frame.columns.any Column.isIndex then
    if data.isEmpty then (.ok (), frame)
    else
      let (answer, columns) := fitFirstIndex (longest data) frame.columns
      (answer, ⟨columns⟩)
  else (.ok (), ⟨.index (.sequential indexHeader (longest data)) :: frame.columns⟩)

end Frame

end LinkedTables
