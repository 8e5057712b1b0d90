import LinkedTables.Json.Decoding
import LinkedTables.Text.Quoted

/-! # Targets

A target says what the identities of a channel refer to.  Rows and columns are built in; any
other target is made from a name, which is kept in a registry.  A target then is the place of
its name in the registry, so equality of targets is a comparison of places, and a target is
shown with the help of the registry that made it. -/

namespace LinkedTables

inductive Target where
  | row
  | column
  | custom (place : Nat)
  deriving DecidableEq, Repr, Hashable

/-- The names of the targets made so far, in the order of their making. -/
structure Registry where
  names : Array String
  deriving DecidableEq, Repr

namespace Registry

def empty : Registry := ⟨#[]⟩

def rowName : String := "row"

def columnName : String := "column"

/-- The place of a name, which is entered at the end if it is new. -/
def intern (registry : Registry) (name : String) : Nat × Registry :=
  match registry.names.idxOf? name with
  | some place => (place, registry)
  | none => (registry.names.size, ⟨registry.names.push name⟩)

def target (registry : Registry) (name : String) : Target × Registry :=
  if name = rowName then (.row, registry)
  else if name = columnName then (.column, registry)
  else
    let (place, registry) := registry.intern name
    (.custom place, registry)

/-- The name of a target; a place that the registry does not hold has none. -/
def nameOf? (registry : Registry) : Target → Option String
  | .row => some rowName
  | .column => some columnName
  | .custom place => registry.names[place]?

def toJson (registry : Registry) (target : Target) : Option Json :=
  (registry.nameOf? target).map Json.ofText

def ofJson? (registry : Registry) (document : Json) : Option (Target × Registry) :=
  document.asText?.map registry.target

/-- The text that shows a target to developers. -/
def inspect (registry : Registry) (target : Target) : Option String :=
  (registry.nameOf? target).map fun name =>
    "BrushingTarget(" ++ String.ofList (quoted name.toList) ++ ")"

end Registry

end LinkedTables
