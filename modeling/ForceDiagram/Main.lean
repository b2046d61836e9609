/-
ForceDiagram/Main.lean

The program: it reads its command line and writes the drawing it is asked for.

What to do is decided by `Command.Arguments`; here only files are read and
written and messages shown.
-/
import ForceDiagram.Command.Export
import ForceDiagram.Scalar.Single

namespace ForceDiagram

namespace Command

/-- What the program can be told. -/
def usage : String :=
  "usage: [--data PATH] [--export-svg PATH] [--width N] [--height N] [--max-steps N] " ++
  "[--link-distance N] [--charge-strength N]"

/-- The wording of what ended the reading of words. -/
def Interruption.message : Interruption → String
  | .helpAsked => usage
  | .versionAsked => "0.1.0"
  | .unknownWord word => "unexpected argument " ++ word
  | .surplusValue word => "unexpected value in " ++ word
  | .missingValue setting => "--" ++ setting.name ++ " needs a value"
  | .emptyPath setting => "--" ++ setting.name ++ " needs a path"
  | .badNumber setting value => "--" ++ setting.name ++ " cannot be " ++ value
  | .repeated setting => "--" ++ setting.name ++ " is given twice"

/-- Whether the reading ended because of a request, not a mistake. -/
def Interruption.isRequest : Interruption → Bool
  | .helpAsked | .versionAsked => true
  | _ => false

/-- The error behind a failed access to a file. -/
def fileErrorOf : IO.Error → FileError
  | .permissionDenied .. => .denied
  | .inappropriateType _ code _ => if code = 21 then .isDirectory else .notDirectory
  | .invalidArgument _ 36 _ => .nameTooLong
  | _ => .notFound

/-- Reads a file. -/
def contentOf (path : String) : IO (Except FileError (List UInt8)) := do
  if let some error := Files.pathFault? path then return .error error
  try return .ok (← IO.FS.readBinFile path).toList
  catch error => return .error (fileErrorOf error)

/-- Writes a file. -/
def writeContent (path content : String) : IO (Except FileError Unit) := do
  if let some error := Files.pathFault? path then return .error error
  try return .ok (← IO.FS.writeFile path content)
  catch error => return .error (fileErrorOf error)

/-- Writes the drawing of the dataset to a path. -/
def exportFile (a : Arguments Float32) (output : String) : IO (Except ExportError Unit) := do
  match Dataset.ofContent a.data (← contentOf a.data) with
  | .error error => return .error (.unloaded error)
  | .ok records =>
    return (← writeContent output (a.drawing records)).mapError (.unwritable output)

/-- Does what the words ask for, and gives the exit code. -/
def runWords (words : List String) : IO UInt32 := do
  match Arguments.ofWords words with
  | .error reason =>
    if reason.isRequest then IO.println reason.message else IO.eprintln reason.message
    return if reason.isRequest then 0 else 2
  | .ok arguments =>
    match arguments.exportSvg with
    | none =>
      IO.eprintln "There is no window here; ask for a drawing with --export-svg."
      return 1
    | some output =>
      match ← exportFile arguments output with
      | .ok _ => return 0
      | .error error =>
        IO.eprintln (causeLine error.causes)
        return 1

end Command

end ForceDiagram

def main (words : List String) : IO UInt32 := ForceDiagram.Command.runWords words
