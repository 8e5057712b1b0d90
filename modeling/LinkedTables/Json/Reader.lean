import LinkedTables.Json.Document

/-! # Reading JSON

The grammar of JSON over a list of characters.  Each reader returns what it read and the text
that follows.  Values nest, so the reader of values counts down a budget of steps; a text that
can be read has a character for each step, so a budget above its length never runs out. -/

namespace LinkedTables

namespace Json

def isSpace (c : Char) : Bool :=
  c == ' ' || c == '\t' || c == '\n' || c == '\r'

def skipSpace (text : List Char) : List Char :=
  text.dropWhile isSpace

def hexValue? (c : Char) : Option Nat :=
  if '0' ≤ c ∧ c ≤ '9' then some (c.toNat - '0'.toNat)
  else if 'a' ≤ c ∧ c ≤ 'f' then some (c.toNat - 'a'.toNat + 10)
  else if 'A' ≤ c ∧ c ≤ 'F' then some (c.toNat - 'A'.toNat + 10)
  else none

def unitOf? (a b c d : Char) : Option (Fin 0x10000) := do
  let a ← hexValue? a
  let b ← hexValue? b
  let c ← hexValue? c
  let d ← hexValue? d
  return ⟨(a * 0x1000 + b * 0x100 + c * 0x10 + d) % 0x10000, Nat.mod_lt _ (by decide)⟩

def shortEscape? : Char → Option Char
  | '"' => some '"'
  | '\\' => some '\\'
  | '/' => some '/'
  | 'b' => some '\x08'
  | 'f' => some '\x0c'
  | 'n' => some '\n'
  | 'r' => some '\r'
  | 't' => some '\t'
  | _ => none

def consPiece (piece : Piece) (read : Option (List Piece × List Char)) :
    Option (List Piece × List Char) :=
  read.map fun (pieces, rest) => (piece :: pieces, rest)

def readPieces : List Char → Option (List Piece × List Char)
  | [] => none
  | '"' :: rest => some ([], rest)
  | '\\' :: 'u' :: a :: b :: c :: d :: rest =>
    match unitOf? a b c d with
    | some code => consPiece (.unit code) (readPieces rest)
    | none => none
  | '\\' :: letter :: rest =>
    match shortEscape? letter with
    | some c => consPiece (.char c) (readPieces rest)
    | none => none
  | c :: rest => if c.toNat < 0x20 ∨ c = '\\' then none else consPiece (.char c) (readPieces rest)

/-- The digits of a whole number, which starts with zero only if it is zero. -/
def readWhole (text : List Char) : Option (List Char × List Char) :=
  match text with
  | '0' :: rest =>
    match rest with
    | c :: _ => if c.isDigit then none else some (['0'], rest)
    | [] => some (['0'], rest)
  | _ =>
    let digits := text.takeWhile Char.isDigit
    if digits = [] then none else some (digits, text.dropWhile Char.isDigit)

def readFraction : List Char → Option (List Char × List Char)
  | '.' :: rest =>
    let digits := rest.takeWhile Char.isDigit
    if digits = [] then none else some (digits, rest.dropWhile Char.isDigit)
  | rest => some ([], rest)

def readExponentOf (sign : ExponentSign) (text : List Char) :
    Option (Option Exponent × List Char) :=
  let digits := text.takeWhile Char.isDigit
  if digits = [] then none else some (some ⟨sign, digits⟩, text.dropWhile Char.isDigit)

def readExponentPart : List Char → Option (Option Exponent × List Char)
  | [] => some (none, [])
  | c :: rest =>
    if c = 'e' ∨ c = 'E' then
      match rest with
      | '+' :: digits => readExponentOf .plus digits
      | '-' :: digits => readExponentOf .minus digits
      | digits => readExponentOf .absent digits
    else some (none, c :: rest)

def readUnsigned (negative : Bool) (text : List Char) : Option (Numeral × List Char) := do
  let (whole, rest) ← readWhole text
  let (fraction, rest) ← readFraction rest
  let (exponent, rest) ← readExponentPart rest
  return (⟨negative, whole, fraction, exponent⟩, rest)

def readNumeral : List Char → Option (Numeral × List Char)
  | '-' :: rest => readUnsigned true rest
  | text => readUnsigned false text

mutual

def readValue : Nat → List Char → Option (Json × List Char)
  | 0, _ => none
  | budget + 1, text =>
    match text with
    | 'n' :: 'u' :: 'l' :: 'l' :: rest => some (.null, rest)
    | 't' :: 'r' :: 'u' :: 'e' :: rest => some (.truth true, rest)
    | 'f' :: 'a' :: 'l' :: 's' :: 'e' :: rest => some (.truth false, rest)
    | '"' :: rest => (readPieces rest).map fun (pieces, rest) => (.string pieces, rest)
    | '[' :: rest =>
      match skipSpace rest with
      | ']' :: rest => some (.array [], rest)
      | rest =>
        (readElements budget rest).map fun (elements, rest) => (.array elements, rest)
    | '{' :: rest =>
      match skipSpace rest with
      | '}' :: rest => some (.object [], rest)
      | rest => (readMembers budget rest).map fun (members, rest) => (.object members, rest)
    | text => (readNumeral text).map fun (numeral, rest) => (.number numeral, rest)

/-- The elements of an array, at least one, up to the closing bracket. -/
def readElements : Nat → List Char → Option (List Json × List Char)
  | 0, _ => none
  | budget + 1, text =>
    match readValue budget text with
    | none => none
    | some (element, rest) =>
      match skipSpace rest with
      | ',' :: rest =>
        (readElements budget (skipSpace rest)).map fun (elements, rest) =>
          (element :: elements, rest)
      | ']' :: rest => some ([element], rest)
      | _ => none

def readMembers : Nat → List Char → Option (List (List Piece × Json) × List Char)
  | 0, _ => none
  | budget + 1, text =>
    match text with
    | '"' :: rest =>
      match readPieces rest with
      | none => none
      | some (name, rest) =>
        match skipSpace rest with
        | ':' :: rest =>
          match readValue budget (skipSpace rest) with
          | none => none
          | some (value, rest) =>
            match skipSpace rest with
            | ',' :: rest =>
              (readMembers budget (skipSpace rest)).map fun (members, rest) =>
                ((name, value) :: members, rest)
            | '}' :: rest => some ([(name, value)], rest)
            | _ => none
        | _ => none
    | _ => none

end

/-- The document that a text holds, with nothing but blanks around it. -/
def parse (text : String) : Option Json :=
  match readValue (text.toList.length + 1) (skipSpace text.toList) with
  | some (document, rest) => if skipSpace rest = [] then some document else none
  | none => none

end Json

end LinkedTables
