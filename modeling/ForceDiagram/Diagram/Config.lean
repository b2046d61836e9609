/-
ForceDiagram/Diagram/Config.lean

The viewport a diagram is laid out for, and the numbers that shape the layout.
-/
import ForceDiagram.Plane.Vec

namespace ForceDiagram

variable {F : Type} [Scalar F]

structure Viewport (F : Type) where
  width : F
  height : F
deriving BEq, Repr

def Viewport.center (v : Viewport F) : Vec F := ⟨v.width * 0.5, v.height * 0.5⟩

structure Config (F : Type) where
  nodeRadius : F
  /-- The gap between a node's rim and the edge of the viewport. -/
  padding : F
  linkDistance : F
  collideIterations : Nat
  collideStrength : F
  chargeStrength : F
  /-- How small a distant group must look to be treated as one body. -/
  theta : F
  chargeDistanceMin : F
  /-- The heat below which a simulation comes to rest. -/
  alphaMin : F
  /-- The part of the way to its target that the heat goes in one step. -/
  alphaDecay : F
  velocityDecay : F
  /-- The heat aimed at while a node is held. -/
  dragAlphaTarget : F
  /-- The scale of the spiral that nodes start on. -/
  initialRadius : F

namespace Config

/-- The numbers used where nothing else is asked for.  With this decay the heat
falls from one to its least value in three hundred steps: it is `1 - alphaMin ^ (1 / 300)`
in single precision, written out because a layout takes no other powers. -/
def standard : Config F where
  nodeRadius := 25
  padding := 10
  linkDistance := 200
  collideIterations := 4
  collideStrength := 1
  chargeStrength := -200
  theta := 0.9
  chargeDistanceMin := 1
  alphaMin := 0.001
  alphaDecay := 0.022762775
  velocityDecay := 0.4
  dragAlphaTarget := 0.3
  initialRadius := 10

instance : Inhabited (Config F) := ⟨standard⟩

/-- The radius at which nodes push each other away. -/
def collideRadius (c : Config F) : F := c.nodeRadius + 0.5

/-- The distance from the edge of the viewport that the centers of nodes keep. -/
def forcePadding (c : Config F) : F := c.nodeRadius + c.padding

/-- How far an edge bows to its side. -/
def bowDistance (c : Config F) : F := c.nodeRadius / 4

end Config

end ForceDiagram
