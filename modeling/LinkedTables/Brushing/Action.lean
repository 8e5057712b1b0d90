import LinkedTables.Json.Decoding

/-! # Actions

The three channels over which linked views exchange rows. -/

namespace LinkedTables

/-- What a view does with rows. -/
inductive Action where
  | filter
  | select
  | highlight
  deriving DecidableEq, Repr

namespace Action

def all : List Action :=
  [.filter, .select, .highlight]

def name : Action → String
  | .filter => "filter"
  | .select => "select"
  | .highlight => "highlight"

def toJson (action : Action) : Json :=
  .ofText action.name

def ofJson? (document : Json) : Option Action :=
  document.asUnitVariant?.bind fun name => all.find? fun action => action.name == name

end Action

end LinkedTables
