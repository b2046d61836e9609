/-
ForceDiagram/Paint/Scene.lean

A scene as shapes on a canvas.

The scene's own origin is put on a point of the canvas.  Edges come first, each
followed by its arrowhead if it has a marker, then all labels, then the nodes,
each disc followed by its name.
-/
import ForceDiagram.Paint.Shape
import ForceDiagram.Plane.Segment
import ForceDiagram.Scene.Basic

namespace ForceDiagram

variable {F : Type} [Scalar F]

/-- The colour in which edges of a type are painted. -/
def Kind.color : Kind → Color
  | .requestRejected => .solid 217 83 79
  | .requestAccepted => .solid 92 184 92
  | .response => .solid 51 122 183
  | .other _ => .solid 140 146 156

namespace Paint

/-- The length of an arrowhead. -/
def arrowSize : F := 8

def edgeWidth : F := 1.5

def labelSize : F := 11

def labelColor : Color := .solid 196 202 210

def nodeFill : Color := .solid 58 66 78

def nodeRim : Stroke F := ⟨1.5, .solid 150 160 172⟩

def nameSize : F := 12

/-- The corners of an arrowhead, the tip first. -/
def corners (a : Arrowhead F) : List (Vec F) := [a.tip, a.left, a.right]

/-- An edge with its arrowhead, which ends at the rim of the target. -/
def edge (origin : Vec F) (config : Config F) (e : EdgeShape F) : List (Shape F) :=
  let start := e.pathStart + origin
  let finish := e.pathEnd + origin
  let head : Option (Shape F) := e.marker?.map fun _ =>
    .polygon (corners (arrowhead start finish config.nodeRadius arrowSize)) e.kind.color
  .line start finish ⟨edgeWidth, e.kind.color⟩ :: head.toList

def label (origin : Vec F) (l : EdgeLabel F) : Shape F :=
  .text l.text (l.anchor + origin) l.textAngle labelSize labelColor

/-- A node with its name. -/
def node (origin : Vec F) (config : Config F) (n : NodeShape F) : List (Shape F) :=
  let center := n.center + origin
  [.circle center config.nodeRadius nodeFill nodeRim, .text n.name center 0 nameSize .white]

end Paint

/-- The shapes of a scene with its origin on a point of the canvas. -/
def Scene.shapes (s : Scene F) (origin : Vec F) (config : Config F) : List (Shape F) :=
  s.edges.flatMap (Paint.edge origin config) ++
    s.labels.map (Paint.label origin) ++
    s.nodes.flatMap (Paint.node origin config)

end ForceDiagram
