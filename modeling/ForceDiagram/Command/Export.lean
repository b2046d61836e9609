/-
ForceDiagram/Command/Export.lean

Writing the drawing of a dataset to a file, without a window.

The dataset is loaded first.  If that fails nothing is written, and what stood
at the place of the drawing stays.
-/
import ForceDiagram.Command.Arguments
import ForceDiagram.Dataset.Loading
import ForceDiagram.Scene.Svg
import ForceDiagram.Scene.View

namespace ForceDiagram

variable {F : Type} [Scalar F]

namespace Command

/-- What keeps a drawing from being written. -/
inductive ExportError where
  | unloaded (error : Dataset.LoadError)
  | unwritable (path : String) (error : FileError)

/-- The wording of an error, from the outermost cause to the innermost. -/
def ExportError.causes : ExportError → List String
  | .unloaded error => error.causes
  | .unwritable path error => ["failed to write " ++ path, error.message]

/-- The drawing of a dataset whose layout has come to rest, or has taken all the
steps it may. -/
def Arguments.drawing (a : Arguments F) (records : List Record) : String :=
  let (view, _) := (View.ofRecords records a.viewport a.config).settle a.maxSteps
  view.scene.svg view.config

/-- Writes the drawing of the dataset to a path. -/
def Arguments.exportTo {home : List String} (a : Arguments F) (output : String)
    (files : Files home) : Except ExportError (Files home) :=
  match Dataset.load files a.data with
  | .error error => .error (.unloaded error)
  | .ok records =>
    match files.write output (a.drawing records).toUTF8.toList with
    | .error error => .error (.unwritable output error)
    | .ok files => .ok files

end Command

end ForceDiagram
