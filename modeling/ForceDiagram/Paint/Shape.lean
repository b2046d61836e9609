/-
ForceDiagram/Paint/Shape.lean

What a window paints: shapes in the order in which they cover each other.
-/
import ForceDiagram.Plane.Rect

namespace ForceDiagram

variable {F : Type} [Scalar F]

/-- A colour whose red, green and blue parts are multiplied by its opacity. -/
structure Color where
  red : UInt8
  green : UInt8
  blue : UInt8
  opacity : UInt8
deriving DecidableEq, Repr

namespace Color

def solid (red green blue : UInt8) : Color := ⟨red, green, blue, 255⟩

def white : Color := solid 255 255 255

def gray : Color := solid 160 160 160

end Color

/-- A line's look. -/
structure Stroke (F : Type) where
  width : F
  color : Color

inductive Shape (F : Type) where
  | rect (area : Rect F) (fill : Color)
  | line (start finish : Vec F) (stroke : Stroke F)
  | polygon (corners : List (Vec F)) (fill : Color)
  | circle (center : Vec F) (radius : F) (fill : Color) (rim : Stroke F)
  /-- A text centred on a point and turned about it. -/
  | text (content : String) (middle : Vec F) (angle size : F) (color : Color)

end ForceDiagram
