/-
ForceDiagram/Quadtree/Square.lean

The squares of a quadtree: the one that covers all points, its four quarters,
and how far a point is from one.
-/
import ForceDiagram.Plane.Vec

namespace ForceDiagram

variable {F : Type} [Scalar F]

/-- A square by its least corner and its side. -/
structure Square (F : Type) where
  min : Vec F
  size : F
deriving BEq, Repr

/-- The quarters of a square, in the order in which a tree lists them. -/
inductive Quarter where
  | upperLeft
  | upperRight
  | lowerLeft
  | lowerRight
deriving DecidableEq, Repr

/-- All quarters, in their order. -/
def Quarter.all : List Quarter := [.upperLeft, .upperRight, .lowerLeft, .lowerRight]

namespace Square

/-- Both coordinates of the vector are the side. -/
def diagonal (s : Square F) : Vec F := ⟨s.size, s.size⟩

/-- The greatest corner. -/
def max (s : Square F) : Vec F := s.min + s.diagonal

/-- Whether a point lies in the square, its border included. -/
def contains (s : Square F) (p : Vec F) : Bool :=
  s.min.x ≤ p.x && p.x ≤ s.max.x && s.min.y ≤ p.y && p.y ≤ s.max.y

/-- The quarter a point belongs to: the lower or right one from the middle on. -/
def quarterOf (s : Square F) (p : Vec F) : Quarter :=
  let middle := s.min + s.diagonal * (0.5 : F)
  if middle.y ≤ p.y then
    if middle.x ≤ p.x then .lowerRight else .lowerLeft
  else
    if middle.x ≤ p.x then .upperRight else .upperLeft

/-- How many halves of the side a quarter lies to the right of the least corner
and below it. -/
def shiftOf : Quarter → Vec F
  | .upperLeft => ⟨0, 0⟩
  | .upperRight => ⟨1, 0⟩
  | .lowerLeft => ⟨0, 1⟩
  | .lowerRight => ⟨1, 1⟩

/-- A quarter as a square of its own. -/
def quarter (s : Square F) (q : Quarter) : Square F :=
  let half : F := s.size * 0.5
  ⟨s.min + (shiftOf q : Vec F) * half, half⟩

/-- The square of the distance from a point to the nearest point of the square. -/
def distanceSq (s : Square F) (p : Vec F) : F :=
  let dx := Scalar.greater (Scalar.greater (s.min.x - p.x) (p.x - s.max.x)) 0
  let dy := Scalar.greater (Scalar.greater (s.min.y - p.y) (p.y - s.max.y)) 0
  dx * dx + dy * dy

/-- Doubles the side until the square reaches up to `high`, at most the given
number of times. -/
def grow (min high : Vec F) : (doublings : Nat) → F → F
  | 0, size => size
  | doublings + 1, size =>
    if min.x + size < high.x ∨ min.y + size < high.y then grow min high doublings (size * 2)
    else size

/-- A side that starts at one has left every width in use, and become infinite,
after this many doublings. -/
def doublingLimit : Nat := 128

/-- The least and the greatest coordinates of points. -/
def bounds (first : Vec F) (rest : List (Vec F)) : Vec F × Vec F :=
  rest.foldl (fun b p => (b.1.lesser p, b.2.greater p)) (first, first)

/-- The smallest square that covers the points, has its least corner on whole
coordinates and a power of two as its side.  There is none if a bound of the
points is not finite. -/
def cover? : List (Vec F) → Option (Square F)
  | [] => none
  | first :: rest =>
    let (low, high) := bounds first rest
    if low.isFinite && high.isFinite then
      let min : Vec F := ⟨Scalar.floor low.x, Scalar.floor low.y⟩
      some ⟨min, grow min high doublingLimit 1⟩
    else none

end Square

end ForceDiagram
