/-
ForceDiagram/Scene/View.lean

A dataset on display: its simulation, the gestures on its nodes and the scene
last drawn.

Another dataset or another viewport replaces the simulation.  A new dataset
starts afresh; a new viewport keeps the nodes where they are, but ends every
gesture and releases every node, so that no node stays held with no gesture on
it.  The scene keeps showing the old positions until the next step.
-/
import ForceDiagram.Scene.Tick
import ForceDiagram.Simulation.Drag

namespace ForceDiagram

variable {F : Type} [Scalar F]

structure View (F : Type) where
  simulation : Simulation F
  viewport : Viewport F
  config : Config F
  drag : Drag F
  scene : Scene F

namespace View

/-- The view of a dataset before its first step. -/
def ofRecords (records : List Record) (viewport : Viewport F) (config : Config F) : View F where
  simulation := .start (.ofRecords records) viewport config
  viewport := viewport
  config := config
  drag := .idle
  scene := .empty viewport

def graph (v : View F) : Graph F := v.simulation.graph

/-- Shows another dataset. -/
def setDataset (v : View F) (records : List Record) : View F :=
  .ofRecords records v.viewport v.config

/-- Lays out for another viewport; `false` if it is the same. -/
def resize (v : View F) (viewport : Viewport F) : View F × Bool :=
  if viewport == v.viewport then (v, false)
  else
    let released := v.graph.mapNodes ({ · with pin := none })
    ({ v with
        simulation := .start released viewport v.config
        viewport
        drag := .idle
        scene := { v.scene with viewport } },
      true)

/-- One turn of the stepping loop, which draws the scene anew if there was a
step; whether the loop goes on. -/
def advance (v : View F) : View F × Bool :=
  let (simulation, drawn) := v.simulation.advance (Graph.tick v.viewport v.config)
  ({ v with simulation, scene := drawn.getD v.scene }, simulation.running)

/-- Advances until the simulation rests, at most the given number of times, on
top of steps that were taken before. -/
def settleFrom (taken : Nat) : (most : Nat) → View F → View F × Nat
  | 0, v => (v, taken)
  | most + 1, v =>
    if v.simulation.running then settleFrom (taken + 1) most v.advance.1 else (v, taken)

/-- Advances until the simulation rests, at most the given number of times; how
many steps it took. -/
def settle (v : View F) (most : Nat) : View F × Nat := settleFrom 0 most v

/-- The topmost node whose disc covers a point. -/
def nodeAt? (v : View F) (p : Vec F) : Option Nat :=
  let radiusSq := v.config.nodeRadius * v.config.nodeRadius
  let hits := v.scene.nodes.zipIdx.filter fun n => (n.1.center - p).lengthSq ≤ radiusSq
  hits.getLast?.map (·.2)

def isDragging (v : View F) : Bool := !v.drag.isIdle

def dragStart (v : View F) (node : Nat) (pointer : Vec F) : View F :=
  let (drag, simulation) := v.drag.start v.simulation node pointer
  { v with drag, simulation }

def grab (v : View F) (node : Nat) (pointer : Vec F) : View F :=
  let (drag, simulation) := v.drag.grab v.simulation node pointer
  { v with drag, simulation }

def dragMove (v : View F) (node : Nat) (pointer : Vec F) : View F :=
  { v with simulation := v.drag.move v.simulation node pointer }

def dragEnd (v : View F) (node : Nat) : View F :=
  let (drag, simulation) := v.drag.finish v.simulation node
  { v with drag, simulation }

/-! ### Histories -/

/-- What can happen to a view. -/
inductive Action (F : Type) where
  | setDataset (records : List Record)
  | resize (viewport : Viewport F)
  | advance
  | settle (most : Nat)
  | dragStart (node : Nat) (pointer : Vec F)
  | grab (node : Nat) (pointer : Vec F)
  | dragMove (node : Nat) (pointer : Vec F)
  | dragEnd (node : Nat)

/-- What an action answers. -/
inductive Answer where
  | done
  | flag (value : Bool)
  | count (value : Nat)
deriving DecidableEq, Repr

/-- An action, with what it answers. -/
def perform (v : View F) : Action F → View F × Answer
  | .setDataset records => (v.setDataset records, .done)
  | .resize viewport => let (v, changed) := v.resize viewport; (v, .flag changed)
  | .advance => let (v, live) := v.advance; (v, .flag live)
  | .settle most => let (v, steps) := v.settle most; (v, .count steps)
  | .dragStart node pointer => (v.dragStart node pointer, .done)
  | .grab node pointer => (v.grab node pointer, .done)
  | .dragMove node pointer => (v.dragMove node pointer, .done)
  | .dragEnd node => (v.dragEnd node, .done)

/-- A view after a history of actions. -/
def run (v : View F) (history : List (Action F)) : View F :=
  history.foldl (fun v action => (v.perform action).1) v

end View

end ForceDiagram
