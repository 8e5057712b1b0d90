import LinkedTables.Column.Error

/-! # What can go wrong with delimited text

The causes for which a frame cannot be read or written, and their wording. -/

namespace LinkedTables

namespace Csv

inductive Fault where
  /-- A field is not text: the number of its record from zero, the line and byte at which the
      record before ended, the field's place, and how many of its bytes are text. -/
  | notText (record line byte field validLength : Nat)
  | isDirectory
  deriving DecidableEq, Repr

def Fault.message : Fault → String
  | .notText record line byte field validLength =>
    "CSV parse error: record " ++ toString record ++ " (line " ++ toString line ++ ", field: "
      ++ toString field ++ ", byte: " ++ toString byte
      ++ "): invalid utf-8: invalid UTF-8 in field " ++ toString field ++ " near byte index "
      ++ toString validLength
  | .isDirectory => "Is a directory (os error 21)"

inductive Error where
  | fileNotFound (path : String)
  | unreadable (fault : Fault)
  /-- There is no directory for the file to write. -/
  | noDirectory
  | record (line : Nat) (cause : TableError)
  | table (cause : TableError)
  deriving DecidableEq, Repr

def Error.message : Error → String
  | .fileNotFound path => "File not found: " ++ path
  | .unreadable fault => "CSV error: " ++ fault.message
  | .noDirectory => "I/O error: No such file or directory (os error 2)"
  | .record line cause => "Line " ++ toString line ++ ": " ++ cause.message
  | .table cause => cause.message

end Csv

end LinkedTables
