/-
ForceDiagram/Force/Charge.lean

Every node repels every other, or attracts it where the strength is positive.

A group of nodes in a square that looks small from a node acts on it as one
body at its mean.  What acts on a node is first listed, as `Source`s in the
order of the tree, and then added up in that order.
-/
import ForceDiagram.Force.Bodies
import ForceDiagram.Quadtree.Basic

namespace ForceDiagram

variable {F : Type} [Scalar F]

structure Charge (F : Type) where
  strength : F
  thetaSq : F
  distanceMinSq : F
  alpha : F

namespace Charge

/-- What acts on a node: another node, or a whole square. -/
inductive Source (F : Type) where
  | body (b : Body F)
  | group (c : Cell F)

/-- Where a source is seen from the origin. -/
def Source.pos : Source F → Vec F
  | .body b => b.pos
  | .group c => c.center

/-- The strength with which a source acts. -/
def weight (c : Charge F) : Source F → F
  | .body _ => c.strength
  | .group cell => c.strength * cell.mass

/-- Whether a square acts on a point as one body: the point is outside, and the
square is small for its distance. -/
def isGroup (c : Charge F) (p : Vec F) (cell : Cell F) : Bool :=
  let width := cell.square.size
  !cell.square.contains p && width * width / c.thetaSq < (cell.center - p).lengthSq

/-- Whether a square has nothing in it. -/
def isVoid (cell : Cell F) : Bool := cell.mass ≤ 0

/-- Whether a walk goes no deeper than a square. -/
def stops (c : Charge F) (p : Vec F) (cell : Cell F) : Bool :=
  isVoid cell || c.isGroup p cell

/-- What acts on a node out of one square of a walk. -/
def sourcesOf (c : Charge F) (node : Body F) (v : Visit F) : List (Source F) :=
  if isVoid v.cell then []
  else if c.isGroup node.pos v.cell then [.group v.cell]
  else (v.bodies.filter fun b => b.index ≠ node.index).map .body

/-- All that acts on a node, in the order of the tree. -/
def sources (c : Charge F) (tree : Quadtree F) (node : Body F) : List (Source F) :=
  (tree.walk (c.stops node.pos)).flatMap (c.sourcesOf node)

/-- The change of velocity through a body of the given weight, seen at `delta`. -/
def between (c : Charge F) (j : Jitter) (delta : Vec F) (weight : F) : Vec F × Jitter :=
  let (delta, lengthSq, j) := j.apart delta delta.lengthSq
  let lengthSq :=
    if lengthSq < c.distanceMinSq then Scalar.sqrt (c.distanceMinSq * lengthSq) else lengthSq
  (delta * (weight * c.alpha / lengthSq), j)

/-- A source changes a velocity. -/
def accumulate (c : Charge F) (p : Vec F) (s : Vec F × Jitter) (source : Source F) :
    Vec F × Jitter :=
  let (change, j) := c.between s.2 (source.pos - p) (c.weight source)
  (s.1 + change, j)

/-- All that acts on a node changes its velocity. -/
def turn (c : Charge F) (tree : Quadtree F) (b : Bodies F) (body : Body F) : Bodies F :=
  match b.nodes[body.index]? with
  | none => b
  | some node =>
    let (velocity, jitter) :=
      (c.sources tree body).foldl (c.accumulate body.pos) (node.velocity, b.jitter)
    { b.modify body.index ({ · with velocity }) with jitter }

/-- Every node takes its turn.  Without a tree nothing happens. -/
def act (c : Charge F) (b : Bodies F) : Bodies F :=
  let places := b.nodes.toList.map (·.pos)
  match Quadtree.ofPoints? places with
  | none => b
  | some tree => (Quadtree.bodiesOf places).foldl (c.turn tree) b

end Charge

end ForceDiagram
