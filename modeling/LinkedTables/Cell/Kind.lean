import LinkedTables.Number.Numeral
import LinkedTables.Number.Layout
import LinkedTables.Text.Blank

/-! # Kinds of cells

A `Kind` says what the cells of a plain column hold: a truth value, a whole number of a given
width, a real number of a given precision, or a short vector of real numbers.  `Kind.Content`
is the type of what one such cell holds, and the functions beside it give, for every kind, the
content of a fresh cell, its reading and its text, and its components as numbers.

Every kind reads what it writes, up to NaN; only the two scalar real kinds read a blank text,
which is how a missing cell becomes NaN.
-/

namespace LinkedTables

inductive Width where
  | w8
  | w16
  | w32
  | w64
  deriving DecidableEq, Repr

/-- How many numbers of a width there are: two to the power of its bits. -/
def Width.count : Width → Nat
  | .w8 => 0x100
  | .w16 => 0x10000
  | .w32 => 0x100000000
  | .w64 => 0x10000000000000000

/-- How many of the numbers of a width that have a sign are negative. -/
def Width.half : Width → Int
  | .w8 => 0x80
  | .w16 => 0x8000
  | .w32 => 0x80000000
  | .w64 => 0x8000000000000000

abbrev Signed (width : Width) : Type :=
  { i : Int // -width.half ≤ i ∧ i < width.half }

abbrev Unsigned (width : Width) : Type :=
  Fin width.count

inductive Dimension where
  | two
  | three
  | four
  deriving DecidableEq, Repr

def Dimension.count : Dimension → Nat
  | .two => 2
  | .three => 3
  | .four => 4

inductive Kind where
  | boolean
  | signed (width : Width)
  | unsigned (width : Width)
  | floating (precision : Precision)
  | vector (dimension : Dimension) (precision : Precision)
  deriving DecidableEq, Repr

namespace Kind

def all : List Kind :=
  [.boolean,
    .signed .w8, .signed .w16, .signed .w32, .signed .w64,
    .unsigned .w8, .unsigned .w16, .unsigned .w32, .unsigned .w64,
    .floating .single, .floating .double,
    .vector .two .single, .vector .three .single, .vector .four .single,
    .vector .two .double, .vector .three .double, .vector .four .double]

/-- The name under which a kind is shown to people. -/
def name : Kind → String
  | .boolean => "BOOL"
  | .signed .w8 => "INT8"
  | .signed .w16 => "INT16"
  | .signed .w32 => "INT32"
  | .signed .w64 => "INT64"
  | .unsigned .w8 => "UINT8"
  | .unsigned .w16 => "UINT16"
  | .unsigned .w32 => "UINT32"
  | .unsigned .w64 => "UINT64"
  | .floating .single => "FLOAT32"
  | .floating .double => "FLOAT64"
  | .vector .two .single => "Vec2FLOAT32"
  | .vector .three .single => "Vec3FLOAT32"
  | .vector .four .single => "Vec4FLOAT32"
  | .vector .two .double => "Vec2FLOAT64"
  | .vector .three .double => "Vec3FLOAT64"
  | .vector .four .double => "Vec4FLOAT64"

/-- The tag of a kind in documents. -/
def tag : Kind → String
  | .boolean => "Bool"
  | .signed .w8 => "Int8"
  | .signed .w16 => "Int16"
  | .signed .w32 => "Int32"
  | .signed .w64 => "Int64"
  | .unsigned .w8 => "UInt8"
  | .unsigned .w16 => "UInt16"
  | .unsigned .w32 => "UInt32"
  | .unsigned .w64 => "UInt64"
  | .floating .single => "Float32"
  | .floating .double => "Float64"
  | .vector .two .single => "Vec2F32"
  | .vector .three .single => "Vec3F32"
  | .vector .four .single => "Vec4F32"
  | .vector .two .double => "Vec2F64"
  | .vector .three .double => "Vec3F64"
  | .vector .four .double => "Vec4F64"

def ofTag? (tag : String) : Option Kind :=
  all.find? fun kind => kind.tag == tag

abbrev Content : Kind → Type
  | .boolean => Bool
  | .signed width => Signed width
  | .unsigned width => Unsigned width
  | .floating precision => Floating precision
  | .vector dimension precision => Vector (Floating precision) dimension.count

/-- The content of a fresh cell: false, or zero in every component. -/
def fresh : (kind : Kind) → kind.Content
  | .boolean => false
  | .signed width => ⟨0, by cases width <;> decide⟩
  | .unsigned width => ⟨0, by cases width <;> decide⟩
  | .floating _ => .zero false
  | .vector dimension _ => Vector.replicate dimension.count (.zero false)

end Kind

/-! ## Reading -/

/-- A text without a pair of brackets around it.  Brackets that do not match are kept. -/
def stripBrackets (text : List Char) : List Char :=
  match text with
  | '(' :: inner => if inner.getLast? = some ')' then inner.dropLast else text
  | '[' :: inner => if inner.getLast? = some ']' then inner.dropLast else text
  | _ => text

def isSeparator (c : Char) : Bool :=
  c == ',' || isBlank c

def splitTokens (text : List Char) : List (List Char) :=
  (text.splitOnP isSeparator).filter (· ≠ [])

/-- The components of a vector: as many real numbers as it has, none of them blank. -/
def readVector (dimension : Dimension) (p : Precision) (text : List Char) :
    Option (Vector (Floating p) dimension.count) :=
  let tokens := splitTokens (stripBrackets (trimBlanks text))
  if tokens.length = dimension.count then
    match tokens.mapM (readReal p) with
    | some components =>
      if h : components.length = dimension.count then some ⟨components.toArray, by simpa using h⟩
      else none
    | none => none
  else none

/-- A scalar real number, where a blank text is NaN. -/
def readCellReal (p : Precision) (text : List Char) : Option (Floating p) :=
  let trimmed := trimBlanks text
  if trimmed = [] then some .nan else readReal p trimmed

namespace Kind

def read (kind : Kind) (text : String) : Option kind.Content :=
  match kind with
  | .boolean => readTruth (trimBlanks text.toList)
  | .signed width => readBounded (-width.half) width.half (trimBlanks text.toList)
  | .unsigned width => readBelow width.count (trimBlanks text.toList)
  | .floating p => readCellReal p text.toList
  | .vector dimension p => readVector dimension p text.toList

/-! ## Text -/

def commaSeparated (texts : List (List Char)) : List Char :=
  [',', ' '].intercalate texts

def displayChars : (kind : Kind) → kind.Content → List Char
  | .boolean, truth => (if truth then "true" else "false").toList
  | .signed _, i => (Numeral.ofInteger i.val).chars
  | .unsigned _, n => Nat.toDigits 10 n.val
  | .floating _, x => x.displayChars
  | .vector _ _, components =>
    '(' :: (commaSeparated (components.toList.map Floating.displayChars) ++ [')'])

def display (kind : Kind) (content : kind.Content) : String :=
  String.ofList (kind.displayChars content)

/-! ## Numbers -/

/-- The components of a content, as numbers of the wider format. -/
def components : (kind : Kind) → kind.Content → List Double
  | .boolean, truth => [.ofNatural (if truth then 1 else 0)]
  | .signed _, i => [.ofInteger i.val]
  | .unsigned _, n => [.ofNatural n.val]
  | .floating _, x => [x.convert]
  | .vector _ _, xs => xs.toList.map Floating.convert

/-- Equality of contents as numbers: NaN differs from itself and the two zeros agree. -/
def same : (kind : Kind) → kind.Content → kind.Content → Bool
  | .boolean, a, b => a == b
  | .signed _, a, b => a.val == b.val
  | .unsigned _, a, b => a.val == b.val
  | .floating _, a, b => a.sameNumber b
  | .vector _ _, a, b => (a.toList.zip b.toList).all fun (x, y) => x.sameNumber y

/-- Whether a content is a missing scalar.  A vector is none, whatever its components. -/
def isMissing : (kind : Kind) → kind.Content → Bool
  | .floating _, x => x.isNaN
  | _, _ => false

end Kind

end LinkedTables
