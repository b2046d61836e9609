/-
ForceDiagram/Force/Spring.lean

Links pull their ends to the distance they ask for.

A link acts the more strongly the fewer links its less connected end has, and
moves the less connected end more.  Self-loops neither count nor act.
-/
import ForceDiagram.Force.Bodies

namespace ForceDiagram

variable {F : Type} [Scalar F]

/-- How strongly a link acts, and the share of its target in the movement. -/
structure Spring (F : Type) where
  strength : F
  bias : F

namespace Spring

/-- Whether a link counts for the node with the given number. -/
def touches (node : Nat) (l : Link F) : Bool :=
  !l.isLoop && (l.source == node || l.target == node)

/-- The number of links at a node. -/
def degree (links : Array (Link F)) (node : Nat) : Nat :=
  links.countP (touches node)

/-- The spring of one link among all links. -/
def ofLink (links : Array (Link F)) (l : Link F) : Spring F :=
  let source : F := Scalar.ofNat (max (degree links l.source) 1)
  let target : F := Scalar.ofNat (max (degree links l.target) 1)
  ⟨1 / Scalar.lesser source target, source / (source + target)⟩

/-- The springs of links, in their order. -/
def ofLinks (links : Array (Link F)) : Array (Spring F) :=
  links.map (ofLink links)

/-- One link pulls or pushes its two ends. -/
def act (distance alpha : F) (b : Bodies F) (link : Link F) (spring : Spring F) : Bodies F :=
  if link.isLoop then b
  else
    match b.nodes[link.source]?, b.nodes[link.target]? with
    | some source, some target =>
      let (delta, _, jitter) := b.jitter.apart (target.ahead - source.ahead) 0
      let length := delta.length
      let scale := (length - distance) / length * alpha * spring.strength
      let correction := delta * scale
      let moved := b.modify link.target (·.pulled (correction * spring.bias))
      { moved.modify link.source (·.pushed (correction * (1 - spring.bias))) with jitter }
    | _, _ => b

/-- All links act, one after the other. -/
def actAll (distance alpha : F) (links : Array (Link F)) (springs : Array (Spring F))
    (b : Bodies F) : Bodies F :=
  (links.zip springs).foldl (fun b pair => act distance alpha b pair.1 pair.2) b

end Spring

end ForceDiagram
