/-
ForceDiagram/Force/Jitter.lean

Small differences for points that coincide on an axis.

A force acts along the line between two points, and two points at one place
have none.  Where a difference is zero, a tiny sample takes its place.  Samples
come from a linear congruential generator of thirty-two bits, so a layout is
the same in every run.
-/
import ForceDiagram.Plane.Vec

namespace ForceDiagram

variable {F : Type} [Scalar F]

structure Jitter where
  state : Nat
deriving DecidableEq, Repr

namespace Jitter

def initial : Jitter := ⟨1⟩

instance : Inhabited Jitter := ⟨initial⟩

def modulus : Nat := Nat.pow 2 32

/-- The next state. -/
def next (j : Jitter) : Jitter := ⟨(1664525 * j.state + 1013904223) % modulus⟩

/-- The state as a part of the modulus. -/
def uniform (j : Jitter) : F := Scalar.ofNat j.state / Scalar.ofNat modulus

/-- A sample within half a millionth of zero, and the generator after it. -/
def sample (j : Jitter) : F × Jitter :=
  ((j.next.uniform - 0.5) * 1e-6, j.next)

/-- Moves a difference off zero.  The square of a sample is added to `sq`. -/
def offZero (j : Jitter) (difference sq : F) : F × F × Jitter :=
  if difference == 0 then
    let (s, j) := j.sample (F := F)
    (s, sq + s * s, j)
  else (difference, sq, j)

/-- Moves both differences of two points off zero, and corrects the square of
their distance. -/
def apart (j : Jitter) (delta : Vec F) (sq : F) : Vec F × F × Jitter :=
  let (x, sq, j) := j.offZero delta.x sq
  let (y, sq, j) := j.offZero delta.y sq
  (⟨x, y⟩, sq, j)

end Jitter

end ForceDiagram
