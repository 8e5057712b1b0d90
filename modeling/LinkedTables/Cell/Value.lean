import LinkedTables.Cell.Kind

/-! # Values

A `Value` is what a single cell gives away: the content of some kind, or a text out of a
category table.  Rows of a table are lists of values. -/

namespace LinkedTables

inductive Value where
  | cell (kind : Kind) (content : kind.Content)
  | text (content : String)

namespace Value

def kind? : Value → Option Kind
  | .cell kind _ => some kind
  | .text _ => none

def text? : Value → Option String
  | .cell _ _ => none
  | .text content => some content

def display : Value → String
  | .cell kind content => kind.display content
  | .text content => content

/-- Whether a value is a scalar NaN. -/
def isMissing : Value → Bool
  | .cell kind content => kind.isMissing content
  | .text _ => false

def content? (kind : Kind) : Value → Option kind.Content
  | .cell other content => if h : other = kind then some (h ▸ content) else none
  | .text _ => none

/-- Equality of values as numbers: NaN differs from itself and the two zeros agree. -/
def same : Value → Value → Bool
  | .cell kind content, other =>
    match other.content? kind with
    | some content' => kind.same content content'
    | none => false
  | .text a, .text b => a == b
  | .text _, .cell _ _ => false

def ofIdentity (id : Unsigned .w64) : Value :=
  .cell (.unsigned .w64) id

def ofCode (code : Unsigned .w32) : Value :=
  .cell (.unsigned .w32) code

end Value

end LinkedTables
