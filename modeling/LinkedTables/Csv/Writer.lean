import LinkedTables.Csv.Error
import LinkedTables.Csv.Records
import LinkedTables.Frame.Basic

/-! # Writing frames

A frame is written as one record per row, with a header if one is wanted and with index columns
if they are wanted.  A cell that a short column lacks, and a scalar NaN, is written as nothing.
A field is put in quotes only where it must be, and a record without bytes is written as a pair
of quotes, so that it is not skipped when it is read. -/

namespace LinkedTables

namespace Csv

structure WriteOptions where
  delimiter : UInt8
  writesHeader : Bool
  includesIndex : Bool
  deriving DecidableEq, Repr

/-- Commas, a header, and no index. -/
def WriteOptions.default : WriteOptions :=
  ⟨0x2C, true, false⟩

def needsQuotes (delimiter : UInt8) (field : List UInt8) : Bool :=
  field.any fun b => b == delimiter || b == quoteByte || isLineEnd b

/-- The bytes between the quotes of a field: a quote is written twice. -/
def doubleQuotes : List UInt8 → List UInt8
  | [] => []
  | b :: rest => if b == quoteByte then b :: b :: doubleQuotes rest else b :: doubleQuotes rest

def encodeField (delimiter : UInt8) (field : List UInt8) : List UInt8 :=
  if needsQuotes delimiter field then quoteByte :: (doubleQuotes field ++ [quoteByte]) else field

def encodeFields (delimiter : UInt8) : List (List UInt8) → List UInt8
  | [] => []
  | [field] => encodeField delimiter field
  | field :: fields => encodeField delimiter field ++ delimiter :: encodeFields delimiter fields

def encodeRecord (delimiter : UInt8) (fields : List (List UInt8)) : List UInt8 :=
  let bytes := encodeFields delimiter fields
  (if bytes = [] then [quoteByte, quoteByte] else bytes) ++ [lineFeed]

def cellText (row : Nat) (column : Column) : String :=
  match column.value true row with
  | .ok value => if value.isMissing then "" else value.display
  | .error _ => ""

def writtenColumns (options : WriteOptions) (frame : Frame) : List Column :=
  frame.columns.filter fun column => options.includesIndex || !column.isIndex

/-- The records that are written, the header first. -/
def writtenRecords (options : WriteOptions) (frame : Frame) : List (List String) :=
  let columns := writtenColumns options frame
  (if options.writesHeader then [columns.map Column.header] else [])
    ++ (List.range frame.rows).map fun row => columns.map (cellText row)

def writeBytes (options : WriteOptions) (frame : Frame) : List UInt8 :=
  (writtenRecords options frame).flatMap fun record =>
    encodeRecord options.delimiter (record.map bytesOfText)

/-- The text of a frame.  A delimiter above ASCII is no text and is replaced. -/
def writeText (options : WriteOptions) (frame : Frame) : String :=
  textOfBytes (writeBytes options frame)

end Csv

end LinkedTables
