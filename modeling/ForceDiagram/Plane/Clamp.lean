/-
ForceDiagram/Plane/Clamp.lean

Keeping a coordinate inside a viewport.
-/
import ForceDiagram.Plane.Vec

namespace ForceDiagram

variable {F : Type} [Scalar F]

/-- Keeps a coordinate between `padding` and `extent - padding`.  The low bound
is tested first: where the two bounds cross, everything up to `padding` goes to
`padding` and the rest to `extent - padding`. -/
def clampAxis (value extent padding : F) : F :=
  if value ≤ padding then padding
  else if extent - padding ≤ value then extent - padding
  else value

end ForceDiagram
