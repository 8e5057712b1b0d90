import LinkedTables.Brushing.Manager

/-! # Links

A `Link` belongs to one view.  It publishes rows of the view's table as identities, gives the
identities that others published back as rows of that table, and remembers which generation of
each channel the view has handled. -/

namespace LinkedTables

inductive LinkError where
  | missingIndexColumn
  deriving DecidableEq, Repr

def LinkError.message : LinkError → String
  | .missingIndexColumn => "DataFrame has no index column"

/-- A view's connection to shared state, and the generations that the view has handled. -/
structure Link where
  source : String
  target : Target
  seen : Generations
  deriving DecidableEq, Repr

namespace Link

def onTarget (source : String) (target : Target) : Link :=
  ⟨source, target, .initial⟩

def onRows (source : String) : Link :=
  onTarget source .row

/-! ## Publishing -/

def publishRows (link : Link) (manager : Manager) (action : Action) (frame : Frame)
    (rows : RowSet) : Except LinkError MatchCounts × Manager :=
  match frame.index? with
  | none => (.error .missingIndexColumn, manager)
  | some index =>
    let (ids, counts) := index.idsOf rows
    let (_, manager) := manager.brush action link.target link.source ids
    (.ok counts, manager)

def brushIds (link : Link) (manager : Manager) (action : Action) (ids : IdSet) :
    Bool × Manager :=
  manager.brush action link.target link.source ids

def clearFilter (link : Link) (manager : Manager) : Bool × Manager :=
  manager.clearFilter link.target link.source

/-- The identity of a column, which is its position. -/
def columnId (position : Row) : Identity :=
  ⟨position.val, Nat.lt_trans position.isLt (by decide)⟩

def selectColumns (manager : Manager) (positions : RowSet) : Bool × Manager :=
  manager.select .column (.ofList (positions.toList.map columnId))

/-! ## Changes -/

/-- Whether a channel has moved since this view last handled it. -/
def isModified (link : Link) (manager : Manager) (action : Action) : Bool :=
  manager.generation action link.target != link.seen.of action

def sync (link : Link) (manager : Manager) : Link :=
  { link with
    seen :=
      ⟨manager.generation .filter link.target, manager.generation .select link.target,
        manager.generation .highlight link.target⟩ }

/-! ## Reading back -/

def publishedRows (link : Link) (manager : Manager) (action : Action) (frame : Frame) :
    Except LinkError (RowSet × MatchCounts) :=
  match frame.index? with
  | none => .error .missingIndexColumn
  | some index => .ok ((RowLookup.ofIndex index).rowsOf (manager.ids action link.target))

def selectedRows (link : Link) (manager : Manager) (frame : Frame) :
    Except LinkError (RowSet × MatchCounts) :=
  link.publishedRows manager .select frame

def highlightedRows (link : Link) (manager : Manager) (frame : Frame) :
    Except LinkError (RowSet × MatchCounts) :=
  link.publishedRows manager .highlight frame

/-- The rows of a table that no source filters out. -/
def remainingRows (link : Link) (manager : Manager) (frame : Frame) : Except LinkError RowSet :=
  match frame.index? with
  | none => .error .missingIndexColumn
  | some index => .ok (index.remainingRows (manager.ids .filter link.target))

/-- The selected positions that are columns of a table.  Whatever a link's own target, columns
    are selected on the target for columns. -/
def selectedColumns (manager : Manager) (frame : Frame) : RowSet :=
  .ofList <| (manager.ids .select .column).toList.filterMap fun id =>
    if id.val < frame.width then Row.ofPlace? id.val else none

end Link

end LinkedTables
