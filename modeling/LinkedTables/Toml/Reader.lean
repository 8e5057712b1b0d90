import LinkedTables.Toml.Document
import LinkedTables.Toml.Lexeme

/-! # Reading TOML

Values nest, and so do the readers here; they count down a budget of steps, of which a text
that can be read takes no more than it has characters.  How deep values nest is limited
apart from that, by `depthLimit`. -/

namespace LinkedTables

namespace Toml

def readScalar (text : List Char) : Read Item :=
  match readMoment text with
  | some rest => some (.moment, rest)
  | none =>
    match readRealDigits text with
    | some rest => some (.real, rest)
    | none =>
      match readSpecialReal text with
      | some rest => some (.real, rest)
      | none => (readIntegerNumber text).map fun (i, rest) => (.integer i, rest)

mutual

/-- A value; `room` more arrays and tables in braces may be entered. -/
def readItem : (budget : Nat) → (room : Nat) → List Char → Read Item
  | 0, _, _ => none
  | budget + 1, room, text =>
    match text with
    | [] => none
    | 't' :: 'r' :: 'u' :: 'e' :: rest => some (.truth true, rest)
    | 'f' :: 'a' :: 'l' :: 's' :: 'e' :: rest => some (.truth false, rest)
    | '[' :: rest =>
      match room with
      | 0 => none
      | room + 1 =>
        match skipTrivia false rest with
        | ']' :: rest => some (.array [], rest)
        | rest => (readElements budget room rest).map fun (items, rest) => (.array items, rest)
    | '{' :: rest =>
      match room with
      | 0 => none
      | room + 1 =>
        match skipSpace rest with
        | '}' :: rest => some (.record .header [], rest)
        | rest =>
          (readPairs budget room [] rest).map fun (entries, rest) =>
            (.record .header entries, rest)
    | c :: rest =>
      if c = '"' ∨ c = '\'' then
        (readString (c :: rest)).map fun (content, rest) => (.text content, rest)
      else readScalar (c :: rest)

/-- The elements of an array, at least one, up to the closing bracket.  A comma may stand behind
    the last one. -/
def readElements : (budget : Nat) → (room : Nat) → List Char → Read (List Item)
  | 0, _, _ => none
  | budget + 1, room, text =>
    match readItem budget room text with
    | none => none
    | some (item, rest) =>
      match skipTrivia false rest with
      | ']' :: rest => some ([item], rest)
      | ',' :: rest =>
        match skipTrivia false rest with
        | ']' :: rest => some ([item], rest)
        | rest =>
          (readElements budget room rest).map fun (items, rest) => (item :: items, rest)
      | _ => none

def readPairs : (budget : Nat) → (room : Nat) → Entries → List Char → Read Entries
  | 0, _, _, _ => none
  | budget + 1, room, entries, text =>
    match readKey text with
    | none => none
    | some (path, rest) =>
      match Document.splitLast path, rest with
      | some (steps, key), '=' :: rest =>
        match readItem budget room (skipSpace rest) with
        | none => none
        | some (item, rest) =>
          match assignRecord key item steps entries with
          | none => none
          | some entries =>
            match skipSpace rest with
            | '}' :: rest => some (entries, rest)
            | ',' :: rest => readPairs budget room entries rest
            | _ => none
      | _, _ => none

end

def readAssignment (text : List Char) (document : Document) :
    Option (Document × List Char) := do
  let (path, rest) ← readKey text
  let (steps, key) ← Document.splitLast path
  let rest ← readExactly '=' rest
  let (item, rest) ← readItem (rest.length + 1) depthLimit (skipSpace rest)
  let rest ← readLineEnd rest
  let document ← document.assign steps key item
  return (document, rest)

def readHeader (text : List Char) (document : Document) :
    Option (Document × List Char) :=
  match text with
  | '[' :: text => do
    let (path, rest) ← readKey text
    let rest ← readExactly ']' rest
    let rest ← readExactly ']' rest
    let rest ← readLineEnd rest
    let document ← document.openRepeated path
    return (document, rest)
  | text => do
    let (path, rest) ← readKey text
    let rest ← readExactly ']' rest
    let rest ← readLineEnd rest
    let document ← document.openTable path
    return (document, rest)

def readLines : (budget : Nat) → Document → List Char → Option Document
  | 0, _, _ => none
  | budget + 1, document, text =>
    match skipSpace text with
    | [] => some document
    | '[' :: rest =>
      match readHeader rest document with
      | some (document, rest) => readLines budget document rest
      | none => none
    | c :: rest =>
      if c = '#' ∨ c = '\n' ∨ c = '\r' then
        match readLineEnd (c :: rest) with
        | some rest => readLines budget document rest
        | none => none
      else match readAssignment (c :: rest) document with
        | some (document, rest) => readLines budget document rest
        | none => none

def dropMark : List Char → List Char
  | '\uFEFF' :: rest => rest
  | text => text

def parse (text : String) : Option Entries :=
  let chars := dropMark text.toList
  match readLines (chars.length + 1) .empty chars with
  | some document => document.close.map Table.entries
  | none => none

end Toml

end LinkedTables
