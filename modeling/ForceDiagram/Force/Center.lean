/-
ForceDiagram/Force/Center.lean

The whole diagram is shifted so that the mean of its nodes lies in the middle.
-/
import ForceDiagram.Graph.Basic

namespace ForceDiagram

variable {F : Type} [Scalar F]

/-- Shifts nodes so that their mean comes to lie on `center`. -/
def centered (center : Vec F) (nodes : Array (Node F)) : Array (Node F) :=
  if nodes.isEmpty then nodes
  else
    let total := nodes.foldl (fun sum n => sum + n.pos) Vec.zero
    let count : F := Scalar.ofNat nodes.size
    let shift := total / count - center
    nodes.map fun n => { n with pos := n.pos - shift }

end ForceDiagram
