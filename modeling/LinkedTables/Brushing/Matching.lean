import LinkedTables.Brushing.Ascending
import LinkedTables.Frame.Basic
import LinkedTables.Json.Decoding

/-! # Rows and identities

Rows are places in one particular table, identities come from its index column.  What has no
match on the other side is left out and counted.  A `RowLookup` gives each identity the first
row that holds it. -/

namespace LinkedTables

abbrev IdSet : Type := Ascending (Width.count .w64)

abbrev RowSet : Type := Ascending (Width.count .w32)

abbrev Row : Type := Fin (Width.count .w32)

/-- How many rows or identities have a match on the other side, and how many have none. -/
structure MatchCounts where
  matched : Nat
  unmatched : Nat
  deriving DecidableEq, Repr

namespace MatchCounts

def isComplete (counts : MatchCounts) : Bool :=
  counts.unmatched == 0

def ofAnswers {α : Type} (answers : List (Option α)) : MatchCounts :=
  ⟨(answers.filter Option.isSome).length, (answers.filter Option.isNone).length⟩

def toJson (counts : MatchCounts) : Json :=
  .ofMembers [("translated", .ofInteger counts.matched), ("dropped", .ofInteger counts.unmatched)]

def ofJson? (document : Json) : Option MatchCounts := do
  let fields ← document.asFields? ["translated", "dropped"]
  let matched ← fields.required? "translated" (Json.asBelow? (Width.count .w64))
  let unmatched ← fields.required? "dropped" (Json.asBelow? (Width.count .w64))
  return ⟨matched.val, unmatched.val⟩

end MatchCounts

def Row.ofPlace? (place : Nat) : Option Row :=
  if h : place < Width.count .w32 then some ⟨place, h⟩ else none

/-! ## From identities to rows -/

/-- The first row of each identity, and at how many rows an identity stands again. -/
structure RowLookup where
  firstRows : List (Identity × Row)
  duplicates : Nat

namespace RowLookup

/-- Enter the identities from a row on, as far as rows have numbers. -/
def enter (lookup : RowLookup) : (place : Nat) → List Identity → RowLookup
  | _, [] => lookup
  | place, id :: rest =>
    match Row.ofPlace? place with
    | none => lookup
    | some row =>
      match lookup.firstRows.lookup id with
      | some _ => enter { lookup with duplicates := lookup.duplicates + 1 } (place + 1) rest
      | none => enter { lookup with firstRows := (id, row) :: lookup.firstRows } (place + 1) rest

def ofIndex (index : IndexColumn) : RowLookup :=
  enter ⟨[], 0⟩ 0 index.ids.toList

def rowOf? (lookup : RowLookup) (id : Identity) : Option Row :=
  lookup.firstRows.lookup id

def size (lookup : RowLookup) : Nat :=
  lookup.firstRows.length

def rowsOf (lookup : RowLookup) (ids : IdSet) : RowSet × MatchCounts :=
  let answers := ids.toList.map lookup.rowOf?
  (.ofList (answers.filterMap id), .ofAnswers answers)

end RowLookup

/-! ## From rows to identities -/

namespace IndexColumn

def idsOf (index : IndexColumn) (rows : RowSet) : IdSet × MatchCounts :=
  let answers := rows.toList.map fun row => index.ids[row.val]?
  (.ofList (answers.filterMap fun answer => answer), .ofAnswers answers)

def rowsWhere (test : Identity → Bool) : (place : Nat) → List Identity → List Row
  | _, [] => []
  | place, id :: rest =>
    match Row.ofPlace? place with
    | some row =>
      if test id then row :: rowsWhere test (place + 1) rest else rowsWhere test (place + 1) rest
    | none => rowsWhere test (place + 1) rest

def remainingRows (index : IndexColumn) (filtered : IdSet) : RowSet :=
  .ofList (rowsWhere (fun id => decide (id ∉ filtered)) 0 index.ids.toList)

end IndexColumn

def maskPlaces : (place : Nat) → List Bool → List Row
  | _, [] => []
  | place, isSet :: rest =>
    match Row.ofPlace? place with
    | some row => if isSet then row :: maskPlaces (place + 1) rest else maskPlaces (place + 1) rest
    | none => maskPlaces (place + 1) rest

def RowSet.ofMask (mask : List Bool) : RowSet :=
  .ofList (maskPlaces 0 mask)

end LinkedTables
