/-
ForceDiagram/Simulation/Drag.lean

Nodes dragged by pointers.

Each gesture holds one node, and several may be under way at once.  The first
one heats the simulation up again and the last one to end lets it cool; those
between only move pins.  A gesture remembers how far from the pointer the node
was when it began, and keeps that distance.  A gesture on a node that does not
exist or is held already does not begin, and moving or ending one that is not
under way does nothing.

Gestures are told apart by their nodes, and nothing but their number is asked of
them all, so the order they are kept in is seen nowhere.  Here the latest comes
first, and one that ends is taken out from between the others.
-/
import ForceDiagram.Simulation.Basic

namespace ForceDiagram

variable {F : Type} [Scalar F]

structure Gesture (F : Type) where
  node : Nat
  /-- From the pointer to the pin. -/
  offset : Vec F

/-- The gestures under way. -/
structure Drag (F : Type) where
  active : List (Gesture F)

namespace Drag

def idle : Drag F := ⟨[]⟩

instance : Inhabited (Drag F) := ⟨idle⟩

def isIdle (d : Drag F) : Bool := d.active.isEmpty

/-- The gesture on a node. -/
def gesture? (d : Drag F) (node : Nat) : Option (Gesture F) :=
  d.active.find? fun g => g.node == node

def isDragging (d : Drag F) (node : Nat) : Bool := (d.gesture? node).isSome

/-- A simulation heated up for a first gesture. -/
def reheated (s : Simulation F) : Simulation F :=
  (s.setAlphaTarget s.config.dragAlphaTarget).restart

/-- Begins a gesture that keeps the given distance. -/
def begin (d : Drag F) (s : Simulation F) (node : Nat) (pointer offset : Vec F) :
    Drag F × Simulation F :=
  if node < s.graph.nodes.size && !d.isDragging node then
    let heated := if d.isIdle then reheated s else s
    (⟨⟨node, offset⟩ :: d.active⟩, heated.setPin node (some (pointer + offset)))
  else (d, s)

/-- Begins a gesture that puts the node right under the pointer. -/
def start (d : Drag F) (s : Simulation F) (node : Nat) (pointer : Vec F) :
    Drag F × Simulation F :=
  d.begin s node pointer .zero

/-- Begins a gesture that leaves the node where it is. -/
def grab (d : Drag F) (s : Simulation F) (node : Nat) (pointer : Vec F) :
    Drag F × Simulation F :=
  match s.graph.nodes[node]? with
  | some grabbed => d.begin s node pointer (grabbed.pos - pointer)
  | none => (d, s)

/-- The pointer of a gesture moves. -/
def move (d : Drag F) (s : Simulation F) (node : Nat) (pointer : Vec F) : Simulation F :=
  match d.gesture? node with
  | some gesture => s.setPin node (some (pointer + gesture.offset))
  | none => s

/-- A gesture ends. -/
def finish (d : Drag F) (s : Simulation F) (node : Nat) : Drag F × Simulation F :=
  if d.isDragging node then
    let rest : Drag F := ⟨d.active.eraseP fun g => g.node == node⟩
    let cooling := if rest.isIdle then s.setAlphaTarget 0 else s
    (rest, cooling.setPin node none)
  else (d, s)

end Drag

end ForceDiagram
