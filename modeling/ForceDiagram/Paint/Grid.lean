/-
ForceDiagram/Paint/Grid.lean

The background of a canvas: a fill with a grid over it.
-/
import ForceDiagram.Paint.Shape

namespace ForceDiagram

variable {F : Type} [Scalar F]

namespace Grid

/-- The distance between two lines. -/
def step : F := 56

def fill : Color := .solid 19 23 29

def stroke : Stroke F := ⟨1, ⟨16, 19, 22, 70⟩⟩

/-- Coordinates one step apart, from `x` on and below `limit`, at most the given
number of them.  Far from zero a step can be too small to lead any further, and
there they end. -/
def stops (limit : F) : (most : Nat) → F → List F
  | 0, _ => []
  | most + 1, x =>
    if x < limit then
      x :: if x < x + step then stops limit most (x + step) else []
    else []

/-- No grid has this many lines. -/
def most : Nat := Nat.pow 2 32

/-- The coordinates of the lines across an extent; none lies on its border. -/
def across (low high : F) : List F := stops high most (low + step)

/-- The lines from top to bottom. -/
def columns (area : Rect F) : List (Shape F) :=
  (across area.min.x area.max.x).map fun x =>
    .line ⟨x, area.min.y⟩ ⟨x, area.max.y⟩ stroke

/-- The lines from left to right. -/
def rows (area : Rect F) : List (Shape F) :=
  (across area.min.y area.max.y).map fun y =>
    .line ⟨area.min.x, y⟩ ⟨area.max.x, y⟩ stroke

/-- All lines. -/
def lines (area : Rect F) : List (Shape F) := columns area ++ rows area

/-- The background of an area. -/
def background (area : Rect F) : List (Shape F) := .rect area fill :: lines area

end Grid

end ForceDiagram
