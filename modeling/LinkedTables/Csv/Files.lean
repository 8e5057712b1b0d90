import LinkedTables.Csv.Reader
import LinkedTables.Csv.Writer

/-! # Frames in files

What reading and writing a file comes to, given what is found at its path. -/

namespace LinkedTables

namespace Csv

inductive Location where
  | nothing
  | directory
  | file (content : List UInt8)
  deriving DecidableEq, Repr

inductive Destination where
  | directory
  | nowhere
  deriving DecidableEq, Repr

def formatName : String := "CSV"

def readPath (options : ReadOptions) (path : String) : Location → Except Error Frame
  | .nothing => .error (.fileNotFound path)
  | .directory => .error (.unreadable .isDirectory)
  | .file content => readBytes options content

/-- A reader, which may be bound to a path. -/
structure Reader where
  options : ReadOptions
  path : Option String
  deriving DecidableEq, Repr

namespace Reader

/-- A reader bound to a path, at which there must be something. -/
def onPath (options : ReadOptions) (path : String) : Location → Except Error Reader
  | .nothing => .error (.fileNotFound path)
  | _ => .ok ⟨options, some path⟩

def unbound (options : ReadOptions) : Reader :=
  ⟨options, none⟩

def read (reader : Reader) (location : Location) : Except Error Frame :=
  match reader.path with
  | some path => readPath reader.options path location
  | none => .error (.fileNotFound "")

end Reader

def writePath (options : WriteOptions) (frame : Frame) : Destination → Except Error (List UInt8)
  | .directory => .ok (writeBytes options frame)
  | .nowhere => .error .noDirectory

end Csv

end LinkedTables
