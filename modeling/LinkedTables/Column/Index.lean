import LinkedTables.Cell.Value
import LinkedTables.Column.Error

/-! # Index columns

An index column gives every row an identity that stays with it when rows are reordered or
filtered elsewhere.  The greatest identity is tracked, so that a new row gets the next one
above it without a search. -/

namespace LinkedTables

abbrev Identity : Type := Unsigned .w64

def Identity.first : Identity := ⟨0, by decide⟩

def Identity.raise (greatest : Option Identity) (id : Identity) : Option Identity :=
  match greatest with
  | some greatest => some (if greatest.val < id.val then id else greatest)
  | none => some id

def Identity.lower (least : Option Identity) (id : Identity) : Option Identity :=
  match least with
  | some least => some (if id.val < least.val then id else least)
  | none => some id

def Identity.greatest? (ids : List Identity) : Option Identity :=
  ids.foldl Identity.raise none

def Identity.least? (ids : List Identity) : Option Identity :=
  ids.foldl Identity.lower none

/-- A header, the identities under it, and the greatest of them. -/
structure IndexColumn where
  header : String
  ids : Array Identity
  greatest : Option Identity
  deriving DecidableEq

namespace IndexColumn

def ofIds (header : String) (ids : List Identity) : IndexColumn :=
  ⟨header, ids.toArray, Identity.greatest? ids⟩

def empty (header : String) : IndexColumn :=
  ⟨header, #[], none⟩

/-- The identities `start`, `start + 1`, and so on, as far as there are any. -/
def consecutive (start count : Nat) : List Identity :=
  (List.range' start count).filterMap fun n =>
    if h : n < Width.count .w64 then some ⟨n, h⟩ else none

def sequential (header : String) (size : Nat) : IndexColumn :=
  ofIds header (consecutive 0 size)

def size (column : IndexColumn) : Nat :=
  column.ids.size

def id (column : IndexColumn) (row : Nat) : Except TableError Identity :=
  match column.ids[row]? with
  | some id => .ok id
  | none => .error (.rowOutOfRange row column.size)

/-- The identity that a new row gets: zero in an empty column, else one above the greatest. -/
def nextId (column : IndexColumn) : Except TableError Identity :=
  match column.greatest with
  | none => .ok .first
  | some greatest =>
    if h : greatest.val + 1 < Width.count .w64 then .ok ⟨greatest.val + 1, h⟩
    else .error (.identitiesExhausted column.header)

def push (column : IndexColumn) (id : Identity) : IndexColumn :=
  { column with ids := column.ids.push id, greatest := Identity.raise column.greatest id }

/-- Append rows with the next identities, all of them or none. -/
def extend (count : Nat) : Edit IndexColumn Unit := fun column =>
  if count = 0 then (.ok (), column)
  else match column.nextId with
    | .error e => (.error e, column)
    | .ok start =>
      -- The last of the new identities is the greatest, so it speaks for all of them.
      if h : start.val + (count - 1) < Width.count .w64 then
        (.ok (),
          { column with
            ids := column.ids ++ consecutive start.val count
            greatest := some ⟨start.val + (count - 1), h⟩ })
      else (.error (.identitiesExhausted column.header), column)

def truncate (column : IndexColumn) (size : Nat) : IndexColumn :=
  if size < column.size then
    -- The greatest identity may be among those cut off.
    let ids := column.ids.take size
    { column with ids := ids, greatest := Identity.greatest? ids.toList }
  else column

/-- Whether every identity is new when its turn comes. -/
@[simp] def allNew (seen : List Identity) : List Identity → Bool
  | [] => true
  | id :: rest => if id ∈ seen then false else allNew (id :: seen) rest

def isUnique (column : IndexColumn) : Bool :=
  allNew [] column.ids.toList

/-- The identities that stand at an earlier row too, one entry for each repetition. -/
@[simp] def repetitions (seen : List Identity) : List Identity → List Identity
  | [] => []
  | id :: rest =>
    if id ∈ seen then id :: repetitions seen rest else repetitions (id :: seen) rest

/-- A list without the entries that equal the one before them. -/
def dropRuns : List Identity → List Identity
  | a :: b :: rest => if a = b then dropRuns (b :: rest) else a :: dropRuns (b :: rest)
  | short => short

def duplicates (column : IndexColumn) : List Identity :=
  dropRuns ((repetitions [] column.ids.toList).mergeSort fun a b => a.val ≤ b.val)

def extent (column : IndexColumn) : Option (Double × Double) :=
  match Identity.least? column.ids.toList, Identity.greatest? column.ids.toList with
  | some least, some greatest => some (.ofNatural least.val, .ofNatural greatest.val)
  | _, _ => none

end IndexColumn

end LinkedTables
