import LinkedTables.Csv.Error
import LinkedTables.Csv.Records
import LinkedTables.Inference

/-! # Reading frames

The first records are a sample: the frame is made of them, with the kinds guessed from them, and
every later record is appended as a row.  All records must be as wide as the header, or as the
first of them if there is none.  Whatever is wrong is reported at the first record at which it
is, with the line of that record. -/

namespace LinkedTables

namespace Csv

structure ReadOptions where
  delimiter : UInt8
  hasHeader : Bool
  inference : InferenceSettings
  deriving DecidableEq, Repr

namespace ReadOptions

def default : ReadOptions :=
  ⟨0x2C, true, .default⟩

def ofSettings (settings : Settings) : ReadOptions :=
  { default with inference := settings.inference }

/-- Set the number of sample rows, at least one. -/
def withSampleRows (options : ReadOptions) (rows : Size) : ReadOptions :=
  { options with
    inference :=
      { options.inference with
        sampleRows := if rows.val = 0 then ⟨1, by decide⟩ else rows } }

def sampleSize (options : ReadOptions) : Nat :=
  Nat.max options.inference.sampleRows.val 1

end ReadOptions

/-- A record of texts, with the line at which the record before it ended. -/
structure TextRecord where
  line : Nat
  cells : List String
  deriving DecidableEq, Repr

/-- The texts of fields that stand from a place on, or the place of the first that is none and
    how many of its bytes are text. -/
def decodeFields : (place : Nat) → List (List UInt8) → Except (Nat × Nat) (List String)
  | _, [] => .ok []
  | place, field :: fields =>
    match textOfBytes? field with
    | some text =>
      match decodeFields (place + 1) fields with
      | .ok texts => .ok (text :: texts)
      | .error e => .error e
    | none => .error (place, validLength field)

def decodeRecord (number : Nat) (record : Record) : Except Fault TextRecord :=
  match decodeFields 0 record.fields with
  | .ok cells => .ok ⟨record.start.line, cells⟩
  | .error (place, validLength) =>
    .error (.notText number record.start.line record.start.byte place validLength)

def decodeRecords : (number : Nat) → List Record → List (Except Fault TextRecord)
  | _, [] => []
  | number, record :: records =>
    decodeRecord number record :: decodeRecords (number + 1) records

def textRecords (delimiter : UInt8) (bytes : List UInt8) : List (Except Fault TextRecord) :=
  decodeRecords 0 (records delimiter bytes)

/-- The header and the records behind it.  Without records the header is empty. -/
def takeHeader : List (Except Fault TextRecord) →
    Except Error (List String × List (Except Fault TextRecord))
  | [] => .ok ([], [])
  | .error fault :: _ => .error (.unreadable fault)
  | .ok header :: records => .ok (header.cells, records)

@[simp] theorem takeHeader_nil : takeHeader [] = .ok ([], []) := rfl

@[simp] theorem takeHeader_error (fault : Fault) (records : List (Except Fault TextRecord)) :
    takeHeader (.error fault :: records) = .error (.unreadable fault) := rfl

@[simp] theorem takeHeader_ok (header : TextRecord) (records : List (Except Fault TextRecord)) :
    takeHeader (.ok header :: records) = .ok (header.cells, records) := rfl

/-- The texts of up to `count` records, and the records behind them.  The expected width is that
    of the first record if no other is given. -/
@[simp] def takeSample (expected : Option Nat) : (count : Nat) → List (Except Fault TextRecord) →
    Except Error (List (List String) × List (Except Fault TextRecord))
  | 0, records => .ok ([], records)
  | _ + 1, [] => .ok ([], [])
  | _ + 1, .error fault :: _ => .error (.unreadable fault)
  | count + 1, .ok record :: records =>
    let width := expected.getD record.cells.length
    if record.cells.length ≠ width then
      .error (.record record.line (.columnCount width record.cells.length))
    else
      -- From here on the width is settled.
      match takeSample (some width) count records with
      | .ok (rows, records) => .ok (record.cells :: rows, records)
      | .error e => .error e

@[simp] def appendRecords (frame : Frame) : List (Except Fault TextRecord) → Except Error Frame
  | [] => .ok frame
  | .error fault :: _ => .error (.unreadable fault)
  | .ok record :: records =>
    match Frame.appendRow record.cells frame with
    | (.ok (), frame) => appendRecords frame records
    | (.error cause, _) => .error (.record record.line cause)

/-- The width that a header gives; an empty one gives none. -/
def headerWidth (headers : List String) : Option Nat :=
  if headers = [] then none else some headers.length

/-- The frame of records, an index column in front. -/
def frameOfRecords (options : ReadOptions) (records : List (Except Fault TextRecord)) :
    Except Error Frame := do
  let (headers, records) ← if options.hasHeader then takeHeader records else .ok ([], records)
  let (sample, records) ← takeSample (headerWidth headers) options.sampleSize records
  match Frame.ofTexts sample headers options.inference.doublePrecision with
  | .error cause => .error (.table cause)
  | .ok frame =>
    let frame ← appendRecords frame records
    match frame.updateIndex with
    | (.ok (), frame) => .ok frame
    | (.error cause, _) => .error (.table cause)

def readBytes (options : ReadOptions) (bytes : List UInt8) : Except Error Frame :=
  frameOfRecords options (textRecords options.delimiter bytes)

def readText (options : ReadOptions) (text : String) : Except Error Frame :=
  readBytes options (bytesOfText text)

end Csv

end LinkedTables
