/-
ForceDiagram/Dataset/Loading.lean

Loading a dataset from a file.
-/
import ForceDiagram.Dataset.Reading
import ForceDiagram.Files.Basic
import ForceDiagram.Text.Utf8

namespace ForceDiagram

namespace Dataset

/-- What keeps a file from being loaded. -/
inductive LoadError where
  | unreadable (path : String) (error : FileError)
  | malformed (path : String) (error : ReadError)

/-- The wording of an error, from the outermost cause to the innermost. -/
def LoadError.causes : LoadError → List String
  | .unreadable path error => ["failed to read dataset " ++ path, error.message]
  | .malformed path error => ("failed to parse dataset " ++ path) :: error.causes

/-- The text of a file. -/
def textOf (content : List UInt8) : Except FileError String :=
  match Utf8.decode? content with
  | some text => .ok text
  | none => .error .notText

/-- The dataset in a file, once the file has been read or found unreadable. -/
def ofContent (path : String) (content : Except FileError (List UInt8)) :
    Except LoadError (List Record) :=
  match content.bind textOf with
  | .error error => .error (.unreadable path error)
  | .ok text =>
    match read text with
    | .error error => .error (.malformed path error)
    | .ok records => .ok records

/-- Loads the dataset at a path. -/
def load {home : List String} (files : Files home) (path : String) :
    Except LoadError (List Record) :=
  ofContent path (files.read path)

end Dataset

end ForceDiagram
