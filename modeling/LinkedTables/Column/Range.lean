import LinkedTables.Number.Layout

/-! # Ranges

The least and the greatest number of a column, as shown beside it or as set by hand. -/

namespace LinkedTables

structure Range where
  least : Double
  greatest : Double
  deriving DecidableEq

def Range.display (range : Range) : String :=
  "[" ++ range.least.display ++ ", " ++ range.greatest.display ++ "]"

def Range.same (a b : Range) : Bool :=
  a.least.sameNumber b.least && a.greatest.sameNumber b.greatest

def Range.same? : Option Range → Option Range → Bool
  | some a, some b => a.same b
  | none, none => true
  | _, _ => false

end LinkedTables
