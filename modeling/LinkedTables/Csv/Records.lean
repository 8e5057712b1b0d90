import LinkedTables.Text.Utf8

/-! # Records of delimited text

`Csv.records` splits bytes into records and records into fields, one byte at a time.

* A field ends at the delimiter, a record at a line feed or a carriage return.  Line ends
  between records are skipped, so there are no records without bytes.
* A field that begins with a quote goes on to the next quote that is alone; a doubled quote
  inside stands for one.  What follows the closing quote still belongs to the field, and a quote
  elsewhere is a character like others.
* The end of the bytes ends a record that has begun, also behind a delimiter.

A record remembers where the one before it ended: at which byte, and on which line, where only
line feeds count.  A byte order mark at the very beginning is no part of the first field. -/

namespace LinkedTables

namespace Csv

def quoteByte : UInt8 := 0x22

def lineFeed : UInt8 := 0x0A

def carriageReturn : UInt8 := 0x0D

def byteOrderMark : List UInt8 := [0xEF, 0xBB, 0xBF]

def isLineEnd (b : UInt8) : Bool :=
  b == lineFeed || b == carriageReturn

/-- A place in the bytes: lines count from one, bytes from zero. -/
structure Position where
  line : Nat
  byte : Nat
  deriving DecidableEq, Repr

def Position.after (position : Position) (b : UInt8) : Position :=
  ⟨if b == lineFeed then position.line + 1 else position.line, position.byte + 1⟩

/-- A record and the place where the one before it ended. -/
structure Record where
  start : Position
  fields : List (List UInt8)
  deriving DecidableEq, Repr

inductive Phase where
  | between
  | fieldStart
  | plain
  | quoted
  /-- Behind a quote that ends the quotes unless another follows. -/
  | quoteSeen
  deriving DecidableEq, Repr

/-- The records so far, the fields and bytes of the one begun, and where things stand.  The
    bytes of the field and the fields and records are kept in reverse. -/
structure Scan where
  phase : Phase
  field : List UInt8
  fields : List (List UInt8)
  records : List Record
  start : Position
  here : Position

namespace Scan

def initial (byte : Nat) : Scan :=
  ⟨.between, [], [], [], ⟨1, 0⟩, ⟨1, byte⟩⟩

def put (scan : Scan) (phase : Phase) (b : UInt8) : Scan :=
  { scan with phase, field := b :: scan.field }

def endField (scan : Scan) : Scan :=
  { scan with phase := .fieldStart, field := [], fields := scan.field.reverse :: scan.fields }

def endRecord (scan : Scan) : Scan :=
  { scan with
    phase := .between
    field := []
    fields := []
    -- The record keeps the place where the one before it ended, not that of its first byte.
    records := ⟨scan.start, (scan.field.reverse :: scan.fields).reverse⟩ :: scan.records
    start := scan.here }

def stepPlain (delimiter : UInt8) (scan : Scan) (b : UInt8) : Scan :=
  if b == delimiter then scan.endField
  else if isLineEnd b then scan.endRecord
  else scan.put .plain b

def stepFieldStart (delimiter : UInt8) (scan : Scan) (b : UInt8) : Scan :=
  if b == quoteByte then { scan with phase := .quoted } else stepPlain delimiter scan b

def step (delimiter : UInt8) (scan : Scan) (b : UInt8) : Scan :=
  let scan := { scan with here := scan.here.after b }
  match scan.phase with
  | .between => if isLineEnd b then scan else stepFieldStart delimiter scan b
  | .fieldStart => stepFieldStart delimiter scan b
  | .plain => stepPlain delimiter scan b
  | .quoted => if b == quoteByte then { scan with phase := .quoteSeen } else scan.put .quoted b
  | .quoteSeen => if b == quoteByte then scan.put .quoted b else stepPlain delimiter scan b

def finish (scan : Scan) : Scan :=
  if scan.phase = .between then scan else scan.endRecord

end Scan

def records (delimiter : UInt8) (bytes : List UInt8) : List Record :=
  let (bytes, skipped) :=
    if bytes.take 3 = byteOrderMark then (bytes.drop 3, 3) else (bytes, 0)
  ((bytes.foldl (Scan.step delimiter) (Scan.initial skipped)).finish).records.reverse

end Csv

end LinkedTables
