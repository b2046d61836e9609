/-
ForceDiagram/Force/Bodies.lean

What forces act on.  A force takes the nodes one after the other, and whatever
it does to a node the later ones already see; the generator that keeps
coinciding nodes apart is passed on in the same way.
-/
import ForceDiagram.Force.Jitter
import ForceDiagram.Graph.Basic

namespace ForceDiagram

variable {F : Type} [Scalar F]

/-- What forces act on: nodes, and the generator that keeps them apart. -/
structure Bodies (F : Type) where
  nodes : Array (Node F)
  jitter : Jitter

namespace Bodies

/-- Changes one node. -/
def modify (b : Bodies F) (i : Nat) (f : Node F → Node F) : Bodies F :=
  { b with nodes := b.nodes.modify i f }

end Bodies

end ForceDiagram
