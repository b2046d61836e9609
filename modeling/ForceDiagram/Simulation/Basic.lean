/-
ForceDiagram/Simulation/Basic.lean

The simulation that lays a graph out, step by step.

Each step first moves the heat `alpha` a part of the way to its target, then
lets the forces act in a fixed order, links, collisions, charge and centering,
and last moves every node by its velocity; a node that is held goes to its pin
instead and comes to rest.  A simulation whose heat has fallen below its least
value stops, until something restarts it.
-/
import ForceDiagram.Diagram.Config
import ForceDiagram.Force.Center
import ForceDiagram.Force.Charge
import ForceDiagram.Force.Collision
import ForceDiagram.Force.Spring

namespace ForceDiagram

variable {F : Type} [Scalar F]

structure Simulation (F : Type) where
  graph : Graph F
  config : Config F
  viewport : Viewport F
  alpha : F
  alphaTarget : F
  running : Bool
  springs : Array (Spring F)
  jitter : Jitter

namespace Simulation

/-! ### First positions -/

/-- The angle between two neighbours on the spiral. -/
def spiralAngle : F := Scalar.pi * (3 - Scalar.sqrt 5)

/-- The place of a node on a spiral around the origin that spreads nodes evenly. -/
def spiral (initialRadius : F) (index : Nat) : Vec F :=
  let radius := initialRadius * Scalar.sqrt (0.5 + Scalar.ofNat index)
  let angle := Scalar.ofNat index * spiralAngle
  ⟨radius * Scalar.cos angle, radius * Scalar.sin angle⟩

/-- A node as a simulation starts with it: at its pin if it is held, on the
spiral if it has had no place yet, and at rest if its velocity is not finite. -/
def prepared (placed : Bool) (initialRadius : F) (index : Nat) (n : Node F) : Node F :=
  { n with
    pos :=
      match n.pin with
      | some pin => pin
      | none => if placed then n.pos else spiral initialRadius index
    velocity := if n.velocity.isFinite then n.velocity else .zero }

/-- A graph all of whose nodes have a place. -/
def placedGraph (initialRadius : F) (g : Graph F) : Graph F :=
  { g with
    nodes := g.nodes.mapIdx (prepared g.placed initialRadius)
    placed := true }

/-- A hot, running simulation of a graph. -/
def start (g : Graph F) (viewport : Viewport F) (config : Config F) : Simulation F where
  graph := placedGraph config.initialRadius g
  config := config
  viewport := viewport
  alpha := 1
  alphaTarget := 0
  running := true
  springs := Spring.ofLinks g.links
  jitter := .initial

/-! ### Control -/

def restart (s : Simulation F) : Simulation F := { s with running := true }

def stop (s : Simulation F) : Simulation F := { s with running := false }

def setAlphaTarget (s : Simulation F) (target : F) : Simulation F :=
  { s with alphaTarget := target }

/-- Holds a node at a pin, or lets it go. -/
def setPin (s : Simulation F) (node : Nat) (pin : Option (Vec F)) : Simulation F :=
  { s with graph := s.graph.modifyNode node ({ · with pin }) }

/-- The simulation stopped and without its graph. -/
def emptied (s : Simulation F) : Simulation F :=
  { s.stop with graph := .empty }

/-! ### Stepping -/

/-- The heat after one step. -/
def cooled (s : Simulation F) : F :=
  s.alpha + (s.alphaTarget - s.alpha) * s.config.alphaDecay

def collision (c : Config F) : Collision F :=
  ⟨c.collideRadius, c.collideStrength, c.collideIterations⟩

def charge (c : Config F) (alpha : F) : Charge F :=
  ⟨c.chargeStrength, c.theta * c.theta, c.chargeDistanceMin * c.chargeDistanceMin, alpha⟩

/-- A node after the forces of a step have acted. -/
def moved (retain : F) (n : Node F) : Node F :=
  match n.pin with
  | some pin => { n with pos := pin, velocity := .zero }
  | none =>
    let velocity := n.velocity * retain
    { n with pos := n.pos + velocity, velocity }

/-- The forces that change velocities, in their order. -/
def pushedBodies (s : Simulation F) (alpha : F) : Bodies F :=
  let linked := Spring.actAll s.config.linkDistance alpha s.graph.links s.springs
    ⟨s.graph.nodes, s.jitter⟩
  (charge s.config alpha).act ((collision s.config).act linked)

/-- One step, whether the simulation runs or not. -/
def step (s : Simulation F) : Simulation F :=
  let alpha := s.cooled
  let bodies := s.pushedBodies alpha
  let nodes := centered s.viewport.center bodies.nodes
  let retain := 1 - s.config.velocityDecay
  { s with
    alpha
    jitter := bodies.jitter
    graph := { s.graph with nodes := nodes.map (moved retain) } }

/-- Stops a simulation that has cooled down. -/
def rested (s : Simulation F) : Simulation F :=
  if s.alpha < s.config.alphaMin then s.stop else s

/-- One turn of the stepping loop: a step if the simulation runs, followed by
`onTick` on its graph.  What `onTick` gives is handed back if there was a step;
afterwards the loop goes on as long as the simulation is running. -/
def advance {α : Type} (onTick : Graph F → Graph F × α) (s : Simulation F) :
    Simulation F × Option α :=
  if s.running then
    let stepped := s.step
    let (graph, result) := onTick stepped.graph
    ({ stepped with graph }.rested, some result)
  else (s, none)

end Simulation

end ForceDiagram
