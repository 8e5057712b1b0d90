import LinkedTables.Json.Reader

/-! # Putting documents to use

What a document denotes: the characters of a string, the number of a numeral, the fields of a
record, the variant of a choice.

A numeral is read with a significand of at most 64 bits and a power of ten that is applied to
it in the wider binary format, so the result need not be the nearest number to a numeral with
many digits.  A numeral that is out of range is refused.

A record is an object, in which unknown members are ignored and no known member stands twice,
or an array of its fields in order. -/

namespace LinkedTables

namespace Json

/-! ## Strings -/

def consChar (c : Char) (decoded : Option (List Char)) : Option (List Char) :=
  decoded.map (c :: ·)

/-- The characters of a string, unless it holds half a surrogate pair. -/
def decodePieces : List Piece → Option (List Char)
  | [] => some []
  | .char c :: rest => consChar c (decodePieces rest)
  | .unit high :: rest =>
    if high.val < 0xD800 ∨ 0xE000 ≤ high.val then
      consChar (Char.ofNat high.val) (decodePieces rest)
    else if 0xDC00 ≤ high.val then none
    else match rest with
      | .unit low :: rest =>
        if 0xDC00 ≤ low.val ∧ low.val < 0xE000 then
          consChar (Char.ofNat (0x10000 + (high.val - 0xD800) * 0x400 + (low.val - 0xDC00)))
            (decodePieces rest)
        else none
      | _ => none

def textOf? (pieces : List Piece) : Option String :=
  (decodePieces pieces).map String.ofList

def asText? : Json → Option String
  | .string pieces => textOf? pieces
  | _ => none

def asTruth? : Json → Option Bool
  | .truth value => some value
  | _ => none

/-! ## Numbers -/

/-- What a numeral denotes: a whole number that fits in 64 bits, or a real number. -/
inductive Quantity where
  | whole (i : Int)
  | real (x : Double)

def significandLimit : Nat := 0xFFFFFFFFFFFFFFFF

/-- Append digits to a significand as long as it fits, and say which digits are left. -/
def accumulate (significand : Nat) : List Char → Nat × List Char
  | [] => (significand, [])
  | digit :: rest =>
    let next := 10 * significand + (digit.toNat - '0'.toNat)
    if next ≤ significandLimit then accumulate next rest else (significand, digit :: rest)

def powerOfTen (n : Nat) : Double :=
  .ofDecimal false ⟨1, n⟩

def greatestPower : Nat := 308

/-- A number times a power of ten.  A power in range is applied at once; a smaller one in
    steps, each of them rounded.  Results out of range are refused. -/
def scale (x : Double) (exponent : Int) : Option Double :=
  if exponent.natAbs ≤ greatestPower then
    if 0 ≤ exponent then
      let product := x.timesPower (powerOfTen exponent.natAbs)
      if product.isInfinite then none else some product
    else some (x.dividedBy (powerOfTen exponent.natAbs))
  else if x.sameNumber (.zero false) then some x
  else if 0 ≤ exponent then none
  else scale (x.dividedBy (powerOfTen greatestPower)) (exponent + greatestPower)
termination_by exponent.natAbs
decreasing_by
  simp only [greatestPower] at *
  omega

def withSign (negative : Bool) (x : Double) : Double :=
  if negative then x.negate else x

/-- The size of an exponent that is too large to be applied. -/
def exponentLimit : Nat := 0x7FFFFFFF

def applyExponent (negative : Bool) (significand : Nat) (start : Int) :
    Option Exponent → Option Double
  | none => (scale (.ofNatural significand) start).map (withSign negative)
  | some exponent =>
    let size := Nat.ofDigitChars 10 exponent.digits 0
    if exponentLimit < size then
      -- Far out of range either way: nothing is left of the number, or it is refused.
      if significand ≠ 0 ∧ exponent.sign ≠ .minus then none
      else some (withSign negative (.zero false))
    else
      let shift : Int := if exponent.sign = .minus then -(size : Int) else size
      (scale (.ofNatural significand) (start + shift)).map (withSign negative)

/-- The whole number of digits that fit in the significand.  Beyond the range of signed 64-bit
    numbers a negative one is real, and so is negative zero. -/
def wholeQuantity (negative : Bool) (significand : Nat) : Quantity :=
  if negative then
    if significand = 0 ∨ 0x8000000000000000 < significand then
      .real (Floating.ofNatural significand).negate
    else .whole (-(significand : Int))
  else .whole significand

def quantity? (numeral : Numeral) : Option Quantity :=
  let (significand, left) := accumulate 0 numeral.whole
  if left = [] ∧ numeral.fraction = [] ∧ numeral.exponent = none then
    some (wholeQuantity numeral.negative significand)
  else
    -- Whole digits that are left over count as powers of ten, fraction digits not at all.
    let (significand, unused) := accumulate significand numeral.fraction
    let used := numeral.fraction.length - unused.length
    (applyExponent numeral.negative significand ((left.length : Int) - used)
      numeral.exponent).map Quantity.real

def asQuantity? : Json → Option Quantity
  | .number numeral => quantity? numeral
  | _ => none

def asBelow? (bound : Nat) (document : Json) : Option (Fin bound) :=
  match document.asQuantity? with
  | some (.whole i) => if h : 0 ≤ i ∧ i.toNat < bound then some ⟨i.toNat, h.2⟩ else none
  | _ => none

def asBounded? (least bound : Int) (document : Json) :
    Option { i : Int // least ≤ i ∧ i < bound } :=
  match document.asQuantity? with
  | some (.whole i) => if h : least ≤ i ∧ i < bound then some ⟨i, h⟩ else none
  | _ => none

def asReal? (p : Precision) (document : Json) : Option (Floating p) :=
  match document.asQuantity? with
  | some (.whole i) => some (.ofInteger i)
  | some (.real x) => some x.convert
  | none => none

/-! ## Sequences -/

def asList? {α : Type} (decode : Json → Option α) : Json → Option (List α)
  | .array elements => elements.mapM decode
  | _ => none

def asVector? {α : Type} (count : Nat) (decode : Json → Option α) (document : Json) :
    Option (Vector α count) :=
  match document.asList? decode with
  | some elements =>
    if h : elements.length = count then some ⟨elements.toArray, by simpa using h⟩ else none
  | none => none

/-! ## Records -/

/-- The known fields of a record, by name.  In a record written as an array a field that is
    missing is missing even if it may be absent. -/
structure Fields where
  isArray : Bool
  known : List (String × Json)

def namedMembers? (members : List (List Piece × Json)) : Option (List (String × Json)) :=
  members.mapM fun (name, value) => (textOf? name).map fun name => (name, value)

def asFields? (names : List String) : Json → Option Fields
  | .object members =>
    match namedMembers? members with
    | some members =>
      let known := members.filter fun (name, _) => names.contains name
      if (known.map Prod.fst).Nodup then some ⟨false, known⟩ else none
    | none => none
  | .array elements =>
    if elements.length ≤ names.length then some ⟨true, names.zip elements⟩ else none
  | _ => none

namespace Fields

def required? {α : Type} (fields : Fields) (name : String) (decode : Json → Option α) :
    Option α :=
  (fields.known.lookup name).bind decode

/-- A field that may be absent or `null`. -/
def optional? {α : Type} (fields : Fields) (name : String) (decode : Json → Option α) :
    Option (Option α) :=
  match fields.known.lookup name with
  | some .null => some none
  | some document => (decode document).map some
  | none => if fields.isArray then none else some none

def defaulted? {α : Type} (fields : Fields) (name : String) (value : α)
    (decode : Json → Option α) : Option α :=
  match fields.known.lookup name with
  | some document => decode document
  | none => some value

end Fields

/-! ## Choices -/

/-- The name of a variant and what it carries, if it carries something. -/
def asVariant? : Json → Option (String × Option Json)
  | .string pieces => (textOf? pieces).map fun name => (name, none)
  | .object [(name, content)] => (textOf? name).map fun name => (name, some content)
  | _ => none

/-- The name of a variant that carries nothing, or only `null`. -/
def asUnitVariant? (document : Json) : Option String :=
  match document.asVariant? with
  | some (name, none) => some name
  | some (name, some .null) => some name
  | _ => none

end Json

end LinkedTables
