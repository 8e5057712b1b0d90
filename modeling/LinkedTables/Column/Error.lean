/-! # What can go wrong in a table

A `TableError` is the cause for which a table refuses an operation; `TableError.message` is its
wording.  An operation that changes a column or a table is an `Edit`: it shows what it leaves
behind in either case, so that "a refusal changes nothing" is a statement about it. -/

namespace LinkedTables

inductive TableError where
  | noColumns
  | columnCount (expected actual : Nat)
  | notConvertible (header value expected : String)
  | columnOutOfRange (index count : Nat)
  | rowOutOfRange (row rows : Nat)
  /-- The cells of a column are asked for under another kind than theirs. -/
  | kindMismatch (header expected actual : String)
  | identitiesExhausted (header : String)
  deriving DecidableEq, Repr

def TableError.message : TableError → String
  | .noColumns => "DataFrame has no columns"
  | .columnCount expected actual =>
    "Invalid column count: expected " ++ toString expected ++ ", got " ++ toString actual
  | .notConvertible header value expected =>
    "Cannot convert '" ++ value ++ "' to " ++ expected ++ " for column '" ++ header ++ "'"
  | .columnOutOfRange index count =>
    "Column index " ++ toString index ++ " out of range (" ++ toString count ++ " columns)"
  | .rowOutOfRange row rows =>
    "Row " ++ toString row ++ " out of range (" ++ toString rows ++ " rows)"
  | .kindMismatch header expected actual =>
    "Type mismatch for column '" ++ header ++ "': expected " ++ expected ++ ", got " ++ actual
  | .identitiesExhausted header =>
    "Index column '" ++ header ++ "' has no free identity above u64::MAX"

/-- A change to a state of type `σ` that may be refused, together with the state left behind. -/
abbrev Edit (σ α : Type) : Type :=
  σ → Except TableError α × σ

end LinkedTables
