/-
ForceDiagram/Plane/Segment.lean

What is drawn along a segment: the sideways shift that parts two edges between
the same ends, and the arrowhead at its end.
-/
import ForceDiagram.Plane.Vec

namespace ForceDiagram

variable {F : Type} [Scalar F]

/-- The displacement that moves the segment from `start` to `finish` sideways by
`distance`, whatever its slope.  A horizontal segment, one of no length
included, moves straight down.  Opposite distances give opposite displacements
for the two directions of one segment, so that two edges back and forth bow
apart. -/
def sideways (distance : F) (start finish : Vec F) : Vec F :=
  let dx := finish.x - start.x
  let dy := finish.y - start.y
  if dy == 0 then ⟨0, distance⟩
  else
    let angle := Scalar.atan (dx / dy)
    ⟨-distance * Scalar.cos angle, distance * Scalar.sin angle⟩

/-- The triangle at the end of an arrow. -/
structure Arrowhead (F : Type) where
  tip : Vec F
  left : Vec F
  right : Vec F

/-- The arrowhead of a segment that ends at `finish`, its tip pulled back by
`inset`.  A segment too short to have a direction points to the right. -/
def arrowhead (start finish : Vec F) (inset size : F) : Arrowhead F :=
  let delta := finish - start
  let length := delta.length
  let direction : Vec F := if 1e-6 < length then delta / length else ⟨1, 0⟩
  let normal : Vec F := ⟨-direction.y, direction.x⟩
  let tip := finish - direction * inset
  let base := tip - direction * size
  let halfWidth := size * 0.5
  ⟨tip, base + normal * halfWidth, base - normal * halfWidth⟩

end ForceDiagram
