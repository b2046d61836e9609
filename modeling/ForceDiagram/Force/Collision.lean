/-
ForceDiagram/Force/Collision.lean

Discs that would overlap push each other away.

In one round every node is compared with the later nodes near the place it will
be at.  The tree that finds them is built once for the round, from where the
nodes were about to be at its start, while each comparison looks at where the
other node is about to be by then.  A pair shares the push evenly.
-/
import ForceDiagram.Force.Bodies
import ForceDiagram.Quadtree.Basic

namespace ForceDiagram

variable {F : Type} [Scalar F]

structure Collision (F : Type) where
  radius : F
  strength : F
  rounds : Nat

namespace Collision

/-- The distance at which two discs touch. -/
def reach (c : Collision F) : F := c.radius * 2

/-- Node `index`, about to be at `place`, meets node `other`. -/
def meet (c : Collision F) (index : Nat) (place : Vec F) (b : Bodies F) (other : Nat) :
    Bodies F :=
  if other ≤ index then b
  else
    match b.nodes[other]? with
    | none => b
    | some node =>
      let delta := place - node.ahead
      let lengthSq := delta.lengthSq
      if c.reach * c.reach ≤ lengthSq then b
      else
        let (delta, lengthSq, jitter) := b.jitter.apart delta lengthSq
        let length := Scalar.sqrt lengthSq
        let push := delta * ((c.reach - length) / length * c.strength)
        let moved := b.modify index (·.pushed (push * (0.5 : F)))
        { moved.modify other (·.pulled (push * (0.5 : F))) with jitter }

/-- One node meets the nodes near it. -/
def turn (c : Collision F) (tree : Quadtree F) (b : Bodies F) (body : Body F) : Bodies F :=
  match b.nodes[body.index]? with
  | none => b
  | some node =>
    (tree.near body.pos c.reach).foldl
      (fun b other => c.meet body.index node.ahead b other.index) b

/-- Every node takes its turn.  Without a tree there is no round. -/
def round? (c : Collision F) (b : Bodies F) : Option (Bodies F) :=
  let places := b.nodes.toList.map Node.ahead
  (Quadtree.ofPoints? places).map fun tree =>
    (Quadtree.bodiesOf places).foldl (c.turn tree) b

/-- Rounds one after the other, up to the first that cannot be held: whatever
keeps it from being held keeps every later one. -/
def repeated (c : Collision F) : Nat → Bodies F → Bodies F
  | 0, b => b
  | rounds + 1, b =>
    match c.round? b with
    | none => b
    | some b => c.repeated rounds b

def act (c : Collision F) (b : Bodies F) : Bodies F := c.repeated c.rounds b

end Collision

end ForceDiagram
