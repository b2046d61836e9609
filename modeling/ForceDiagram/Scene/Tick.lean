/-
ForceDiagram/Scene/Tick.lean

From a graph to its scene, after a step of the simulation.

Edges are drawn between the positions the step produced.  Only then are nodes
moved into the viewport, and since the graph keeps the moved positions, the next
step starts from what is seen.
-/
import ForceDiagram.Plane.Clamp
import ForceDiagram.Plane.Segment
import ForceDiagram.Scene.Basic

namespace ForceDiagram

variable {F : Type} [Scalar F]

/-- The side to which an edge bows, as a factor. -/
def Bow.factor : Bow → F
  | .back => -1
  | .straight => 0
  | .forth => 1

namespace Graph

/-- A link with the offset that belongs to the positions of its ends. -/
def bowed (unit : F) (g : Graph F) (l : Link F) : Link F :=
  { l with
    offset := sideways (l.bow.factor * unit) (g.positionOf l.source) (g.positionOf l.target) }

/-- A node moved into the viewport. -/
def clamped (viewport : Viewport F) (padding : F) (n : Node F) : Node F :=
  { n with
    pos := ⟨clampAxis n.pos.x viewport.width padding, clampAxis n.pos.y viewport.height padding⟩ }

/-- The name of an edge by its number. -/
def linkId (index : Nat) : String := "link-" ++ toString index

/-- A link as it is drawn. -/
def edgeShape (g : Graph F) (index : Nat) (l : Link F) : EdgeShape F where
  id := linkId index
  kind := l.kind
  start := g.positionOf l.source
  finish := g.positionOf l.target
  offset := l.offset

/-- The label of a link, on the middle of the drawn line. -/
def edgeLabel (g : Graph F) (index : Nat) (l : Link F) : EdgeLabel F :=
  let start := g.positionOf l.source
  let finish := g.positionOf l.target
  let delta := finish - start
  { pathId := linkId index
    text := l.kind.label
    anchor := (start + finish) * (0.5 : F) + l.offset
    flipped := finish.x < start.x
    pathAngle := Scalar.atan2 delta.y delta.x }

/-- A node as it is drawn. -/
def nodeShape (n : Node F) : NodeShape F := ⟨n.name, n.pos⟩

/-- The graph after a tick, and its scene. -/
def tick (viewport : Viewport F) (config : Config F) (g : Graph F) : Graph F × Scene F :=
  let links := g.links.map (g.bowed config.bowDistance)
  let nodes := g.nodes.map (clamped viewport config.forcePadding)
  ({ g with nodes, links },
   { viewport
     edges := links.toList.mapIdx g.edgeShape
     labels := links.toList.mapIdx g.edgeLabel
     nodes := nodes.toList.map nodeShape })

end Graph

end ForceDiagram
