/-
ForceDiagram/Proofs/View/Steps.lean

What each action on a view does, one equation or frame for each.

An advance either steps, draws and looks whether to rest, or does nothing at
all; to settle is to advance several times; a resize is refused or starts a
simulation of the released graph.  What follows about runs cites these and does
not open the actions again.
-/
import ForceDiagram.Proofs.Simulation.Frame
import ForceDiagram.Scene.View

namespace ForceDiagram

variable {F : Type} [Scalar F]

namespace Simulation

variable (s : Simulation F)

@[simp] theorem rested_graph : s.rested.graph = s.graph := by
  unfold rested
  split <;> rfl

@[simp] theorem rested_config : s.rested.config = s.config := by
  unfold rested
  split <;> rfl

@[simp] theorem rested_viewport : s.rested.viewport = s.viewport := by
  unfold rested
  split <;> rfl

@[simp] theorem rested_alphaTarget : s.rested.alphaTarget = s.alphaTarget := by
  unfold rested
  split <;> rfl

@[simp] theorem rested_springs : s.rested.springs = s.springs := by
  unfold rested
  split <;> rfl

end Simulation

namespace View

variable {v : View F}

/-! ### Advancing -/

/-- The graph and the scene that a step and a tick give. -/
def next (v : View F) : Graph F × Scene F := v.simulation.step.graph.tick v.viewport v.config

theorem advance_of_running (h : v.simulation.running = true) :
    v.advance.1 = { v with
      simulation := ({ v.simulation.step with graph := v.next.1 } : Simulation F).rested
      scene := v.next.2 } := by
  rw [advance, Simulation.advance, if_pos h]
  rfl

theorem advance_of_resting (h : v.simulation.running = false) : v.advance = (v, false) := by
  rw [advance, Simulation.advance, if_neg (by simp [h])]
  simp [h]

/-- An advance keeps what a simulation is given from outside. -/
theorem advance_simulation_frame (v : View F) :
    v.advance.1.simulation.viewport = v.simulation.viewport ∧
      v.advance.1.simulation.config = v.simulation.config ∧
      v.advance.1.simulation.alphaTarget = v.simulation.alphaTarget ∧
      v.advance.1.simulation.springs = v.simulation.springs ∧
      v.advance.1.graph.placed = v.graph.placed := by
  rcases hrun : v.simulation.running with - | -
  · rw [advance_of_resting hrun]
    exact ⟨rfl, rfl, rfl, rfl, rfl⟩
  · rw [advance_of_running hrun]
    simp only [graph, Simulation.rested_graph, Simulation.rested_config,
      Simulation.rested_viewport, Simulation.rested_alphaTarget, Simulation.rested_springs]
    exact ⟨rfl, rfl, rfl, rfl, rfl⟩

theorem graph_advance_of_running (h : v.simulation.running = true) :
    v.advance.1.graph = v.next.1 := by
  rw [graph, advance_of_running h, Simulation.rested_graph]

/-- What is read off a node without its place and motion is the same after an
advance. -/
theorem map_nodes_advance {α : Type} {f : Node F → α}
    (hf : ∀ n pos velocity, f { n with pos, velocity } = f n) (v : View F) :
    v.advance.1.graph.nodes.map f = v.graph.nodes.map f := by
  rcases hrun : v.simulation.running with - | -
  · rw [advance_of_resting hrun]
  · rw [graph_advance_of_running hrun, next, Graph.map_nodes_tick _ _ _ fun n pos => hf n pos _,
      Simulation.map_nodes_step hf]
    rfl

theorem shape_advance (v : View F) : v.advance.1.graph.shape = v.graph.shape := by
  rcases hrun : v.simulation.running with - | -
  · rw [advance_of_resting hrun]
  · rw [graph_advance_of_running hrun, next, Graph.shape_tick, Simulation.shape_step]
    rfl

/-! ### Settling -/

/-- What every advance keeps is kept by settling. -/
theorem settle_induction {P : View F → Prop} (hadvance : ∀ v, P v → P v.advance.1) (hv : P v)
    (most : Nat) : P (v.settle most).1 := by
  have hfrom : ∀ most taken v, P v → P (settleFrom taken most v).1 := by
    intro most
    induction most with
    | zero => intro taken v hv; exact hv
    | succ most ih =>
      intro taken v hv
      rw [settleFrom]
      split
      · exact ih (taken + 1) v.advance.1 (hadvance v hv)
      · exact hv
  exact hfrom most 0 v hv

/-- The first turn of settling. -/
theorem settle_succ_of_running (h : v.simulation.running = true) (most : Nat) :
    (v.settle (most + 1)).1 = (v.advance.1.settle most).1 := by
  have hcount : ∀ most taken taken' (v : View F),
      (settleFrom taken most v).1 = (settleFrom taken' most v).1 := by
    intro most
    induction most with
    | zero => intro taken taken' v; rfl
    | succ most ih =>
      intro taken taken' v
      rw [settleFrom, settleFrom]
      split
      · exact ih _ _ _
      · rfl
  rw [settle, settleFrom, if_pos h]
  exact hcount _ _ _ _

theorem settle_of_resting (h : v.simulation.running = false) (most : Nat) :
    v.settle most = (v, 0) := by
  cases most with
  | zero => rfl
  | succ most => rw [settle, settleFrom, if_neg (by simp [h])]

/-! ### Resizing -/

/-- The view started anew for another viewport. -/
def resized (v : View F) (viewport : Viewport F) : View F :=
  { v with
    simulation := .start v.graph.unpinned viewport v.config
    viewport
    drag := .idle
    scene := { v.scene with viewport } }

theorem resize_of_eq {viewport : Viewport F} (h : (viewport == v.viewport) = true) :
    v.resize viewport = (v, false) := if_pos h

theorem resize_of_ne {viewport : Viewport F} (h : (viewport == v.viewport) = false) :
    v.resize viewport = (v.resized viewport, true) := if_neg (by simp [h])

theorem shape_resized (v : View F) (viewport : Viewport F) :
    (v.resized viewport).graph.shape = v.graph.shape :=
  (Simulation.shape_placedGraph _ _).trans v.graph.shape_unpinned

/-- A resized graph that was placed before keeps its nodes where they are. -/
theorem map_nodeShape_resized (v : View F) (viewport : Viewport F) (h : v.graph.placed = true) :
    (v.resized viewport).graph.nodes.map Graph.nodeShape =
      v.graph.nodes.map Graph.nodeShape := by
  have hplaced : v.graph.unpinned.placed = true := h
  exact (Simulation.map_nodeShape_placedGraph _ hplaced fun _ => Graph.pin_of_mem_unpinned).trans
    (Graph.map_nodes_unpinned (fun _ => rfl) v.graph)

end View

end ForceDiagram
