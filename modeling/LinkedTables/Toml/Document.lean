/-! # TOML documents

A document is a table of items.  Which additions to a table are allowed depends on how the
table came about, so a table remembers its origin: a header that names it, a longer header or a
dotted key that passes through it, or braces.

* A header may complete a table that only longer headers have passed through, and no other.
* A dotted key may pass through a table that no header names, and may end only in a table that
  dotted keys made.
* Nothing may be added to a value, a table in braces included.

`Document` follows the lines of a text: the table that the last header opened is kept apart
from the rest until the next header. -/

namespace LinkedTables

namespace Toml

/-- How a table came about. -/
inductive Origin where
  | header
  /-- A longer header passes through it. -/
  | passage
  /-- A dotted key passes through it. -/
  | dotted
  deriving DecidableEq, Repr

/-- What stands under a key.  Texts and times are never asked for what they say. -/
inductive Item where
  | text (content : List Char)
  | integer (i : Int)
  | real
  | truth (value : Bool)
  | moment
  | array (elements : List Item)
  | record (origin : Origin) (entries : List (List Char × Item))
  | table (origin : Origin) (entries : List (List Char × Item))
  /-- The tables under repeated double-bracket headers, in reverse order. -/
  | tables (elements : List (Origin × List (List Char × Item)))

abbrev Entries : Type := List (List Char × Item)

structure Table where
  origin : Origin
  entries : Entries

def Table.opened : Table := ⟨.header, []⟩

def Entries.put (key : List Char) (item : Item) : Entries → Entries
  | [] => [(key, item)]
  | (other, old) :: rest =>
    if other = key then (key, item) :: rest else (other, old) :: Entries.put key item rest

def Entries.remove (key : List Char) (entries : Entries) : Entries :=
  entries.filter fun (other, _) => other ≠ key

/-- Make a change in the table at the end of a path.  Tables that are missing on the way are
    made with the origin `passing`; a path of dotted keys does not pass through a table that a
    header names. -/
def Table.change (passing : Origin) (change : Table → Option Table) :
    List (List Char) → Table → Option Table
  | [], table => change table
  | key :: path, table =>
    match table.entries.lookup key with
    | none =>
      (Table.change passing change path ⟨passing, []⟩).map fun inner =>
        { table with entries := table.entries.put key (.table inner.origin inner.entries) }
    | some (.table origin entries) =>
      if passing = .dotted ∧ origin = .header then none
      else
        (Table.change passing change path ⟨origin, entries⟩).map fun inner =>
          { table with entries := table.entries.put key (.table inner.origin inner.entries) }
    | some (.tables ((origin, entries) :: earlier)) =>
      -- Of repeated tables the latest is meant.
      (Table.change passing change path ⟨origin, entries⟩).map fun inner =>
        { table with
          entries := table.entries.put key (.tables ((inner.origin, inner.entries) :: earlier)) }
    | some _ => none

/-- Add a value under a key.  The key is new, and a dotted key ends in a table of its own kind. -/
def Table.insert (isDotted : Bool) (key : List Char) (item : Item) (table : Table) :
    Option Table :=
  if isDotted ≠ (table.origin = .dotted) then none
  else match table.entries.lookup key with
    | none => some { table with entries := table.entries.put key item }
    | some _ => none

def Table.assign (path : List (List Char)) (key : List Char) (item : Item) (table : Table) :
    Option Table :=
  table.change .dotted (Table.insert (!path.isEmpty) key item) path

def assignRecord (key : List Char) (item : Item) :
    List (List Char) → Entries → Option Entries
  | [], entries =>
    match entries.lookup key with
    | none => some (entries.put key item)
    | some _ => none
  | step :: path, entries =>
    match entries.lookup step with
    | none =>
      (assignRecord key item path []).map fun inner => entries.put step (.record .dotted inner)
    | some (.record .dotted inner) =>
      (assignRecord key item path inner).map fun inner => entries.put step (.record .dotted inner)
    | some _ => none

/-! ## Documents in the making -/

/-- The outermost table, the table under the last header, and where that one belongs. -/
structure Document where
  root : Table
  current : Table
  path : List (List Char)
  repeated : Bool

namespace Document

def empty : Document :=
  ⟨.opened, .opened, [], false⟩

def splitLast : List (List Char) → Option (List (List Char) × List Char)
  | [] => none
  | [key] => some ([], key)
  | step :: path => (splitLast path).map fun (steps, key) => (step :: steps, key)

def close (document : Document) : Option Table :=
  match splitLast document.path with
  | none => some document.current
  | some (steps, key) =>
    document.root.change .passage (fun parent =>
      if document.repeated then
        match parent.entries.lookup key with
        | none =>
          some { parent with
            entries := parent.entries.put key
              (.tables [(document.current.origin, document.current.entries)]) }
        | some (.tables earlier) =>
          some { parent with
            entries := parent.entries.put key
              (.tables ((document.current.origin, document.current.entries) :: earlier)) }
        | some _ => none
      else
        match parent.entries.lookup key with
        | none =>
          some { parent with
            entries := parent.entries.put key
              (.table document.current.origin document.current.entries) }
        | some _ => none) steps

/-- Open the table of a header.  A table that longer headers passed through is completed. -/
def openTable (path : List (List Char)) (document : Document) : Option Document := do
  let root ← document.close
  let (steps, key) ← splitLast path
  let parent ← root.change .passage some steps
  let found ← find parent steps key
  match found with
  | none => some ⟨parent, .opened, path, false⟩
  | some (.table .passage entries) =>
    -- The table is taken out of its place until the next header puts it back.
    let root ← parent.change .passage
      (fun table => some { table with entries := table.entries.remove key }) steps
    some ⟨root, ⟨.header, entries⟩, path, false⟩
  | some _ => none
where
  find (table : Table) : List (List Char) → List Char → Option (Option Item)
    | [], key => some (table.entries.lookup key)
    | step :: steps, key =>
      match table.entries.lookup step with
      | some (.table origin entries) => find ⟨origin, entries⟩ steps key
      | some (.tables ((origin, entries) :: _)) => find ⟨origin, entries⟩ steps key
      | _ => none

def openRepeated (path : List (List Char)) (document : Document) : Option Document := do
  let root ← document.close
  let (steps, key) ← splitLast path
  let root ← root.change .passage (fun parent =>
    match parent.entries.lookup key with
    | none => some parent
    | some (.tables _) => some parent
    | some _ => none) steps
  some ⟨root, .opened, path, true⟩

def assign (path : List (List Char)) (key : List Char) (item : Item) (document : Document) :
    Option Document :=
  (document.current.assign path key item).map fun current => { document with current }

end Document

end Toml

end LinkedTables
