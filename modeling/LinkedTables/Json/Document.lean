import LinkedTables.Number.Layout

/-! # JSON documents

A document keeps what its text says and no more: a string is a list of pieces in which escaped
code units stand for themselves, and a number is a numeral.  Whether the units make up
characters, and which number a numeral denotes, is decided where a document is put to use
(`Json.Decoding`), so a part that is never used may hold a lone surrogate or a number out of
every range.

`Json.compact` and `Json.pretty` write a document without and with line breaks. -/

namespace LinkedTables

/-- A piece of a string: a character, or an escaped UTF-16 code unit. -/
inductive Json.Piece where
  | char (c : Char)
  | unit (code : Fin 0x10000)
  deriving DecidableEq

/-- A JSON document.  The members of an object stand in the order of the text. -/
inductive Json where
  | null
  | truth (value : Bool)
  | number (numeral : Numeral)
  | string (pieces : List Json.Piece)
  | array (elements : List Json)
  | object (members : List (List Json.Piece × Json))

namespace Json

/-! ## Strings -/

/-- Whether a character has to be escaped and has no short escape. -/
def isControl (c : Char) : Bool :=
  c.toNat < 0x20 && !(c == '\x08' || c == '\t' || c == '\n' || c == '\x0c' || c == '\r')

def Piece.ofChar (c : Char) : Piece :=
  if isControl c then .unit ⟨c.toNat % 0x10000, Nat.mod_lt _ (by decide)⟩ else .char c

def hexDigit (n : Nat) : Char :=
  Nat.digitChar (n % 16)

def Piece.chars : Piece → List Char
  | .char '"' => ['\\', '"']
  | .char '\\' => ['\\', '\\']
  | .char '\x08' => ['\\', 'b']
  | .char '\t' => ['\\', 't']
  | .char '\n' => ['\\', 'n']
  | .char '\x0c' => ['\\', 'f']
  | .char '\r' => ['\\', 'r']
  | .char c => [c]
  | .unit code =>
    ['\\', 'u', hexDigit (code.val / 0x1000), hexDigit (code.val / 0x100),
      hexDigit (code.val / 0x10), hexDigit code.val]

def stringChars (pieces : List Piece) : List Char :=
  '"' :: (pieces.flatMap Piece.chars ++ ['"'])

/-! ## Building documents -/

def piecesOf (text : String) : List Piece :=
  text.toList.map Piece.ofChar

def ofText (text : String) : Json :=
  .string (piecesOf text)

def ofInteger (i : Int) : Json :=
  .number (.ofInteger i)

/-- A real number as a document; NaN and the infinities become `null`. -/
def ofReal {p : Precision} (x : Floating p) : Json :=
  match x.numeral? with
  | some numeral => .number numeral
  | none => .null

def ofMembers (members : List (String × Json)) : Json :=
  .object (members.map fun (name, value) => (piecesOf name, value))

/-! ## Writing -/

mutual

def compactChars : Json → List Char
  | .null => "null".toList
  | .truth value => (if value then "true" else "false").toList
  | .number numeral => numeral.chars
  | .string pieces => stringChars pieces
  | .array elements => '[' :: compactElements elements
  | .object members => '{' :: compactMembers members

def compactElements : List Json → List Char
  | [] => [']']
  | [last] => compactChars last ++ [']']
  | element :: rest => compactChars element ++ ',' :: compactElements rest

def compactMembers : List (List Piece × Json) → List Char
  | [] => ['}']
  | [(name, last)] => stringChars name ++ ':' :: (compactChars last ++ ['}'])
  | (name, value) :: rest =>
    stringChars name ++ ':' :: (compactChars value ++ ',' :: compactMembers rest)

end

def compact (document : Json) : String :=
  String.ofList document.compactChars

def lineBreak (depth : Nat) : List Char :=
  '\n' :: List.replicate (2 * depth) ' '

mutual

def prettyChars (depth : Nat) : Json → List Char
  | .array [] => ['[', ']']
  | .array (element :: rest) => '[' :: prettyElements (depth + 1) (element :: rest)
  | .object [] => ['{', '}']
  | .object (member :: rest) => '{' :: prettyMembers (depth + 1) (member :: rest)
  | document => document.compactChars

def prettyElements (depth : Nat) : List Json → List Char
  | [] => [']']
  | [last] => lineBreak depth ++ prettyChars depth last ++ lineBreak (depth - 1) ++ [']']
  | element :: rest =>
    lineBreak depth ++ prettyChars depth element ++ ',' :: prettyElements depth rest

def prettyMembers (depth : Nat) : List (List Piece × Json) → List Char
  | [] => ['}']
  | [(name, last)] =>
    lineBreak depth ++ stringChars name ++ ':' :: ' ' ::
      (prettyChars depth last ++ lineBreak (depth - 1) ++ ['}'])
  | (name, value) :: rest =>
    lineBreak depth ++ stringChars name ++ ':' :: ' ' ::
      (prettyChars depth value ++ ',' :: prettyMembers depth rest)

end

def pretty (document : Json) : String :=
  String.ofList (prettyChars 0 document)

end Json

end LinkedTables
