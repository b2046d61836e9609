/-
ForceDiagram/Plane/Rect.lean

Rectangles, such as the area that a canvas covers.
-/
import ForceDiagram.Plane.Vec

namespace ForceDiagram

variable {F : Type} [Scalar F]

/-- A rectangle by its least and its greatest corner. -/
structure Rect (F : Type) where
  min : Vec F
  max : Vec F

namespace Rect

def width (r : Rect F) : F := r.max.x - r.min.x

def height (r : Rect F) : F := r.max.y - r.min.y

def center (r : Rect F) : Vec F := ⟨(r.min.x + r.max.x) / 2, (r.min.y + r.max.y) / 2⟩

/-- Whether a point lies in the rectangle, its border included. -/
def contains (r : Rect F) (p : Vec F) : Bool :=
  r.min.x ≤ p.x && p.x ≤ r.max.x && r.min.y ≤ p.y && p.y ≤ r.max.y

/-- The square of the distance from a point to the nearest point of the
rectangle. -/
def distanceSq (r : Rect F) (p : Vec F) : F :=
  let dx := if p.x < r.min.x then r.min.x - p.x else if r.max.x < p.x then p.x - r.max.x else 0
  let dy := if p.y < r.min.y then r.min.y - p.y else if r.max.y < p.y then p.y - r.max.y else 0
  dx * dx + dy * dy

end Rect

end ForceDiagram
