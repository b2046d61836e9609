/-
ForceDiagram/Scene/Basic.lean

What there is to draw of a graph: edges, their labels and nodes, each with its
place, in the order in which they are drawn.
-/
import ForceDiagram.Diagram.Config
import ForceDiagram.Graph.Basic

namespace ForceDiagram

variable {F : Type} [Scalar F]

/-- The arrowheads of the known types of edges. -/
inductive Marker where
  | requestRejected
  | requestAccepted
  | response
deriving DecidableEq, Repr

namespace Marker

def all : List Marker := [.requestRejected, .requestAccepted, .response]

/-- The marker of a type of edge; unknown types have none. -/
def ofKind? : Kind → Option Marker
  | .requestRejected => some .requestRejected
  | .requestAccepted => some .requestAccepted
  | .response => some .response
  | .other _ => none

/-- The name under which edges refer to a marker. -/
def id : Marker → String
  | .requestRejected => "request-rejected"
  | .requestAccepted => "request-accepted"
  | .response => "response"

end Marker

structure EdgeShape (F : Type) where
  id : String
  kind : Kind
  start : Vec F
  finish : Vec F
  /-- The sideways shift of the whole edge. -/
  offset : Vec F

namespace EdgeShape

/-- Where the drawn line starts. -/
def pathStart (e : EdgeShape F) : Vec F := e.start + e.offset

/-- Where the drawn line ends. -/
def pathEnd (e : EdgeShape F) : Vec F := e.finish + e.offset

def marker? (e : EdgeShape F) : Option Marker := Marker.ofKind? e.kind

end EdgeShape

structure EdgeLabel (F : Type) where
  /-- The edge the label belongs to. -/
  pathId : String
  text : String
  anchor : Vec F
  /-- Whether the label is turned by half a turn, so that it stays upright on an
  edge that runs from right to left. -/
  flipped : Bool
  pathAngle : F

namespace EdgeLabel

/-- The turn of the label against its edge, in degrees. -/
def rotation (l : EdgeLabel F) : F := if l.flipped then 180 else 0

/-- The angle of the written text. -/
def textAngle (l : EdgeLabel F) : F := l.pathAngle + Scalar.radians l.rotation

end EdgeLabel

structure NodeShape (F : Type) where
  name : String
  center : Vec F

structure Scene (F : Type) where
  viewport : Viewport F
  edges : List (EdgeShape F)
  labels : List (EdgeLabel F)
  nodes : List (NodeShape F)

namespace Scene

def empty (viewport : Viewport F) : Scene F := ⟨viewport, [], [], []⟩

def isEmpty (s : Scene F) : Bool := s.nodes.isEmpty

end Scene

end ForceDiagram
