/-
ForceDiagram/Proofs/Simulation/Loops.lean

Self-loops have no part in a layout.

A graph and the graph without its self-loops are laid out side by side.  A self-loop
counts for no node, so the other links have the same springs in both (`zip_proper`);
and it does nothing when its turn comes, so the turns of the others lead to the same
bodies (`actAll_proper`).  No other force looks at links.  To leave the self-loops out
therefore commutes with the start of a simulation, with pins and with steps, and with any
number of these one after the other (`laidOut_withoutLoops`).

Main result: `nodes_laidOut_withoutLoops`.
-/
import ForceDiagram.Simulation.Basic

namespace ForceDiagram

variable {F : Type} [Scalar F]

/-- The links between different nodes, in their order. -/
def Link.proper (links : Array (Link F)) : Array (Link F) := links.filter fun l => !l.isLoop

/-- The graph without its self-loops. -/
def Graph.withoutLoops (g : Graph F) : Graph F := { g with links := Link.proper g.links }

open Link

/-! ### Springs -/

namespace Spring

variable (links : Array (Link F))

omit [Scalar F] in
/-- A self-loop is not counted at any node. -/
theorem degree_proper (node : Nat) : degree (proper links) node = degree links node := by
  rw [degree, degree, proper, Array.countP_filter]
  refine Array.countP_congr fun l _ => ?_
  rw [touches]
  cases l.isLoop <;> simp

theorem ofLink_proper : (ofLink (proper links) : Link F → Spring F) = ofLink links := by
  funext l
  rw [ofLink, ofLink, degree_proper, degree_proper]

/-- The links that are left have the springs that they had among all. -/
theorem zip_proper : (proper links).zip (ofLinks (proper links)) =
    (links.zip (ofLinks links)).filter fun pair => !pair.1.isLoop := by
  apply Array.toList_inj.mp
  rw [ofLinks, ofLink_proper, ofLinks, proper]
  simp only [Array.toList_zip, Array.toList_map, Array.toList_filter]
  rw [← List.map_prod_left_eq_zip, ← List.map_prod_left_eq_zip, List.filter_map]
  rfl

theorem act_of_isLoop {link : Link F} (h : link.isLoop = true) (distance alpha : F)
    (b : Bodies F) (spring : Spring F) : act distance alpha b link spring = b := if_pos h

/-- The turns of self-loops may be left out. -/
theorem actAll_proper (distance alpha : F) (b : Bodies F) :
    actAll distance alpha (proper links) (ofLinks (proper links)) b =
      actAll distance alpha links (ofLinks links) b := by
  rw [actAll, actAll, zip_proper, Array.foldl_filter]
  refine congrArg (fun turn => (links.zip (ofLinks links)).foldl turn b) ?_
  funext b pair
  rcases hloop : pair.1.isLoop with - | -
  · rfl
  · exact (act_of_isLoop hloop distance alpha b pair.2).symm

end Spring

/-! ### Simulations -/

namespace Simulation

/-- The simulation of the graph without its self-loops. -/
def withoutLoops (s : Simulation F) : Simulation F :=
  { s with graph := s.graph.withoutLoops, springs := Spring.ofLinks s.graph.withoutLoops.links }

/-- The springs are those of the links. -/
def Sprung (s : Simulation F) : Prop := s.springs = Spring.ofLinks s.graph.links

theorem start_withoutLoops (g : Graph F) (viewport : Viewport F) (config : Config F) :
    start g.withoutLoops viewport config = (start g viewport config).withoutLoops := rfl

theorem pushedBodies_withoutLoops {s : Simulation F} (h : s.Sprung) (alpha : F) :
    s.withoutLoops.pushedBodies alpha = s.pushedBodies alpha := by
  rw [pushedBodies, pushedBodies, h]
  exact congrArg _ (congrArg _ (Spring.actAll_proper s.graph.links _ alpha _))

theorem step_withoutLoops {s : Simulation F} (h : s.Sprung) :
    s.withoutLoops.step = s.step.withoutLoops := by
  have hcooled : s.withoutLoops.cooled = s.cooled := rfl
  rw [step, hcooled, pushedBodies_withoutLoops h]
  rfl

/-! ### Steps with pins -/

/-- Nodes with the pins they get, or with none for those that are let go. -/
abbrev Pins (F : Type) := List (Nat × Option (Vec F))

/-- Pins are set one after the other. -/
def pinned (s : Simulation F) (pins : Pins F) : Simulation F :=
  pins.foldl (fun s pin => s.setPin pin.1 pin.2) s

/-- One step for each list of pins, which are set before it. -/
def laidOut (s : Simulation F) (history : List (Pins F)) : Simulation F :=
  history.foldl (fun s pins => (s.pinned pins).step) s

omit [Scalar F] in
/-- Pins concern nodes alone. -/
theorem links_pinned (s : Simulation F) (pins : Pins F) :
    (s.pinned pins).springs = s.springs ∧ (s.pinned pins).graph.links = s.graph.links := by
  induction pins generalizing s with
  | nil => exact ⟨rfl, rfl⟩
  | cons pin pins ih => exact ih (s.setPin pin.1 pin.2)

theorem pinned_withoutLoops (s : Simulation F) (pins : Pins F) :
    s.withoutLoops.pinned pins = (s.pinned pins).withoutLoops := by
  induction pins generalizing s with
  | nil => rfl
  | cons pin pins ih => exact ih (s.setPin pin.1 pin.2)

theorem Sprung.pinned {s : Simulation F} (h : s.Sprung) (pins : Pins F) :
    (s.pinned pins).Sprung := by
  obtain ⟨hsprings, hlinks⟩ := s.links_pinned pins
  rw [Sprung, hsprings, hlinks]
  exact h

theorem laidOut_withoutLoops {s : Simulation F} (h : s.Sprung) (history : List (Pins F)) :
    s.withoutLoops.laidOut history = (s.laidOut history).withoutLoops := by
  induction history generalizing s with
  | nil => rfl
  | cons pins history ih =>
    have hpinned := h.pinned pins
    show (s.withoutLoops.pinned pins).step.laidOut history = _
    rw [pinned_withoutLoops, step_withoutLoops hpinned]
    -- a step changes neither links nor springs
    exact ih (s := (s.pinned pins).step) hpinned

/-- **Self-loops contribute nothing.**  A graph and the graph without its self-loops, laid
out in as many steps with the same pins set before each, have the same nodes, at the same
places and with the same velocities, the same heat and the same generator.  The links that
are left have the same springs, one by one. -/
theorem nodes_laidOut_withoutLoops (g : Graph F) (viewport : Viewport F) (config : Config F)
    (history : List (Pins F)) :
    let s := (start g viewport config).laidOut history
    let s' := (start g.withoutLoops viewport config).laidOut history
    s'.graph.nodes = s.graph.nodes ∧ s'.alpha = s.alpha ∧ s'.jitter = s.jitter ∧
      g.withoutLoops.links.zip (Spring.ofLinks g.withoutLoops.links) =
        (g.links.zip (Spring.ofLinks g.links)).filter fun pair => !pair.1.isLoop := by
  have hsprung : (start g viewport config).Sprung := rfl
  have hlaidOut := laidOut_withoutLoops hsprung history
  rw [← start_withoutLoops] at hlaidOut
  intro s s'
  have hs' : s' = s.withoutLoops := hlaidOut
  rw [hs']
  exact ⟨rfl, rfl, rfl, Spring.zip_proper g.links⟩

end Simulation

end ForceDiagram
