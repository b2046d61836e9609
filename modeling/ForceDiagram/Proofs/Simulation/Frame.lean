/-
ForceDiagram/Proofs/Simulation/Frame.lean

What the steps of a simulation, its start and the gestures on it leave alone.

A step moves nodes, and so does a tick, which also draws the links; neither
touches what is read off a node without its place and motion.  A gesture holds a
node or lets it go, and may heat the simulation up or let it cool; everything
else is the simulation `released`, which no gesture changes.
-/
import ForceDiagram.Proofs.Force.Frame
import ForceDiagram.Proofs.Graph.Shape
import ForceDiagram.Scene.Tick
import ForceDiagram.Simulation.Drag

namespace ForceDiagram

variable {F : Type} [Scalar F]

/-! ### Steps -/

theorem map_centered {α : Type} {f : Node F → α} (hf : ∀ n pos, f { n with pos } = f n)
    (center : Vec F) (nodes : Array (Node F)) : (centered center nodes).map f = nodes.map f := by
  unfold centered
  split
  · rfl
  · exact map_map_of_eq (fun n => hf n _) nodes

namespace Simulation

theorem places_pushedBodies (s : Simulation F) (alpha : F) :
    (s.pushedBodies alpha).places = s.graph.nodes.map Node.atRest := by
  rw [pushedBodies, Charge.places_act, Collision.places_act, Spring.places_actAll]
  rfl

/-- What is read off a node without its place and motion is the same after a step. -/
theorem map_nodes_step {α : Type} {f : Node F → α}
    (hf : ∀ n pos velocity, f { n with pos, velocity } = f n) (s : Simulation F) :
    s.step.graph.nodes.map f = s.graph.nodes.map f := by
  have hmoved : ∀ retain n, f (moved retain n) = f n := by
    intro retain n
    unfold moved
    split <;> exact hf n _ _
  have hrest : ∀ n : Node F, f n.atRest = f n := fun n => hf n _ _
  calc s.step.graph.nodes.map f
      = (centered s.viewport.center (s.pushedBodies s.cooled).nodes).map f :=
        map_map_of_eq (hmoved _) _
    _ = (s.pushedBodies s.cooled).nodes.map f := map_centered (fun n pos => hf n pos _) _ _
    _ = (s.pushedBodies s.cooled).places.map f := (map_map_of_eq hrest _).symm
    _ = s.graph.nodes.map f := by rw [places_pushedBodies, map_map_of_eq hrest]

@[simp] theorem shape_step (s : Simulation F) : s.step.graph.shape = s.graph.shape :=
  Graph.shape_eq_iff.mpr ⟨map_nodes_step (fun _ _ _ => rfl) s, rfl⟩

end Simulation

/-! ### Ticks -/

namespace Graph

variable (viewport : Viewport F) (config : Config F) (g : Graph F)

/-- What is read off a node without its place is the same after a tick. -/
theorem map_nodes_tick {α : Type} {f : Node F → α} (hf : ∀ n pos, f { n with pos } = f n) :
    (g.tick viewport config).1.nodes.map f = g.nodes.map f :=
  map_map_of_eq (fun n => hf n _) g.nodes

@[simp] theorem shape_tick : (g.tick viewport config).1.shape = g.shape := by
  have hlinks : ∀ l, (g.bowed config.bowDistance l).undrawn = l.undrawn := fun _ => rfl
  exact shape_eq_iff.mpr ⟨map_nodes_tick viewport config g fun _ _ => rfl,
    map_map_of_eq hlinks g.links⟩

end Graph

/-! ### Starts -/

namespace Graph

/-- The graph with every node let go. -/
def unpinned (g : Graph F) : Graph F := g.mapNodes ({ · with pin := none })

omit [Scalar F] in
theorem pin_of_mem_unpinned {g : Graph F} {n : Node F} (h : n ∈ g.unpinned.nodes) :
    n.pin = none := by
  obtain ⟨m, -, rfl⟩ := Array.mem_map.mp h
  rfl

omit [Scalar F] in
/-- What is read off a node without its pin is the same once it is let go. -/
theorem map_nodes_unpinned {α : Type} {f : Node F → α}
    (hf : ∀ n : Node F, f { n with pin := none } = f n) (g : Graph F) :
    g.unpinned.nodes.map f = g.nodes.map f := map_map_of_eq hf g.nodes

@[simp] theorem shape_unpinned (g : Graph F) : g.unpinned.shape = g.shape :=
  shape_eq_iff.mpr ⟨map_nodes_unpinned (fun _ => rfl) g, rfl⟩

end Graph

namespace Simulation

@[simp] theorem shape_placedGraph (initialRadius : F) (g : Graph F) :
    (placedGraph initialRadius g).shape = g.shape := by
  have hname : ∀ i n, (prepared g.placed initialRadius i n).name = n.name := fun _ _ => rfl
  exact Graph.shape_eq_iff.mpr ⟨map_mapIdx_of_eq hname g.nodes, rfl⟩

/-- A graph that has been placed and holds no node stays where it is. -/
theorem map_nodeShape_placedGraph (initialRadius : F) {g : Graph F} (hg : g.placed = true)
    (hpins : ∀ n ∈ g.nodes, n.pin = none) :
    (placedGraph initialRadius g).nodes.map Graph.nodeShape = g.nodes.map Graph.nodeShape := by
  apply Array.ext_getElem?
  intro i
  simp only [placedGraph, Array.getElem?_map, Array.getElem?_mapIdx, Option.map_map]
  rcases hn : g.nodes[i]? with - | n
  · rfl
  · have hpin := hpins n (Array.mem_of_getElem? hn)
    simp [prepared, Graph.nodeShape, hpin, hg]

/-! ### Gestures -/

/-- The simulation with every node let go, cooling and running: what gestures
leave alone. -/
def released (s : Simulation F) : Simulation F :=
  { s with
    graph := s.graph.unpinned
    alphaTarget := 0
    running := true }

/-- `Gestured s s'`: nothing but a gesture lies between the two simulations. -/
structure Gestured (s s' : Simulation F) : Prop where
  released : s'.released = s.released
  running : s.running = true → s'.running = true

theorem Gestured.refl (s : Simulation F) : Gestured s s := ⟨rfl, id⟩

theorem Gestured.trans {s s' s'' : Simulation F} (h : Gestured s s') (h' : Gestured s' s'') :
    Gestured s s'' := ⟨h'.released.trans h.released, h'.running ∘ h.running⟩

theorem Gestured.config {s s' : Simulation F} (h : Gestured s s') : s'.config = s.config :=
  congrArg (·.config) h.released

theorem gestured_setPin (s : Simulation F) (node : Nat) (pin : Option (Vec F)) :
    Gestured s (s.setPin node pin) where
  released := by
    have hunpin : ∀ n : Node F,
        ({ ({ n with pin } : Node F) with pin := none } : Node F) = { n with pin := none } :=
      fun _ => rfl
    simp only [released, setPin, Graph.unpinned, Graph.mapNodes, Graph.modifyNode]
    rw [map_modify_of_eq hunpin]
  running := id

theorem gestured_setAlphaTarget (s : Simulation F) (target : F) :
    Gestured s (s.setAlphaTarget target) := ⟨rfl, id⟩

theorem gestured_reheated (s : Simulation F) : Gestured s (Drag.reheated s) := ⟨rfl, fun _ => rfl⟩

end Simulation

namespace Drag

open Simulation

variable (d : Drag F) (s : Simulation F) (node : Nat) (pointer offset : Vec F)

theorem gestured_begin : Gestured s (d.begin s node pointer offset).2 := by
  unfold begin
  split
  · refine Gestured.trans ?_ (gestured_setPin _ node _)
    split
    · exact gestured_reheated s
    · exact .refl s
  · exact .refl s

theorem gestured_start : Gestured s (d.start s node pointer).2 :=
  d.gestured_begin s node pointer .zero

theorem gestured_grab : Gestured s (d.grab s node pointer).2 := by
  unfold grab
  split
  · exact d.gestured_begin s node pointer _
  · exact .refl s

theorem gestured_move : Gestured s (d.move s node pointer) := by
  unfold move
  split
  · exact gestured_setPin s node _
  · exact .refl s

theorem gestured_finish : Gestured s (d.finish s node).2 := by
  unfold finish
  split
  · refine Gestured.trans ?_ (gestured_setPin _ node none)
    split
    · exact gestured_setAlphaTarget s 0
    · exact .refl s
  · exact .refl s

end Drag

end ForceDiagram
