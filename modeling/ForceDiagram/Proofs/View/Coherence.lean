/-
ForceDiagram/Proofs/View/Coherence.lean

The parts of a view always fit together.

A view keeps its viewport in three places and its configuration in two, the
springs of its simulation belong to the links of its graph, and its scene is a
picture of the graph.  Actions change these parts one by one: a resize moves the
graph into another simulation and leaves the scene, a gesture touches the
simulation alone, an advance draws only if it steps.

`Coherent given stepped v` is what holds between them all when `given` is the
dataset last given and `stepped` says whether a step has been asked for since.
Every action keeps it (`Coherent.perform`), so every run does
(`coherent_run`).  Two things make the scene go on being a picture of the graph
without being drawn anew: a graph once placed is not placed again, and a resize
releases every node before it starts a simulation, which would else move held
nodes to their pins.
-/
import ForceDiagram.Proofs.View.Steps

namespace ForceDiagram

variable {F : Type} [Scalar F]

namespace View

/-! ### What a history has asked for -/

/-- The dataset on display after an action. -/
def Action.given (given : List Record) : Action F → List Record
  | .setDataset records => records
  | _ => given

/-- Whether a step has been asked for since the dataset was given. -/
def Action.stepped (stepped : Bool) : Action F → Bool
  | .setDataset _ => false
  | .advance => true
  | .settle most => stepped || 0 < most
  | _ => stepped

/-- The dataset last given. -/
def givenLast (records : List Record) (history : List (Action F)) : List Record :=
  history.foldl Action.given records

/-- Whether a step has been asked for since the dataset was last given. -/
def steppedSince (history : List (Action F)) : Bool := history.foldl Action.stepped false

/-! ### Pictures -/

/-- Nothing is drawn. -/
structure Blank (v : View F) : Prop where
  nodes : v.scene.nodes = []
  edges : v.scene.edges = []
  labels : v.scene.labels = []

/-- The scene shows every node where it is, and every link under its number and
with its offset. -/
structure Drawn (v : View F) : Prop where
  nodes : v.scene.nodes = v.graph.nodes.toList.map Graph.nodeShape
  edges : v.scene.edges.map (fun e => (e.id, e.offset)) =
    v.graph.links.toList.mapIdx fun k l => (Graph.linkId k, l.offset)
  labels : v.scene.labels.map (·.pathId) =
    v.graph.links.toList.mapIdx fun k _ => Graph.linkId k

omit [Scalar F] in
/-- A picture stays one where neither the scene nor what it shows changes. -/
theorem Drawn.congr {v w : View F} (h : v.Drawn) (hnodes : w.scene.nodes = v.scene.nodes)
    (hedges : w.scene.edges = v.scene.edges) (hlabels : w.scene.labels = v.scene.labels)
    (hplaces : w.graph.nodes.map Graph.nodeShape = v.graph.nodes.map Graph.nodeShape)
    (hlinks : w.graph.links = v.graph.links) : w.Drawn where
  nodes := by
    rw [hnodes, h.nodes, ← Array.toList_map, ← hplaces, Array.toList_map]
  edges := by rw [hedges, h.edges, hlinks]
  labels := by rw [hlabels, h.labels, hlinks]

/-- A tick draws what it leaves behind. -/
theorem drawn_of_tick {v : View F} {g : Graph F} {viewport : Viewport F} {config : Config F}
    (hnodes : v.graph.nodes = (g.tick viewport config).1.nodes)
    (hlinks : v.graph.links = (g.tick viewport config).1.links)
    (hscene : v.scene = (g.tick viewport config).2) : v.Drawn where
  nodes := by rw [hscene, hnodes]; rfl
  edges := by
    rw [hscene, hlinks]
    exact map_mapIdx g.edgeShape _ _
  labels := by
    rw [hscene, hlinks]
    exact map_mapIdx g.edgeLabel _ _

/-! ### Coherence -/

/-- What holds between the parts of a view. -/
structure Coherent (given : List Record) (stepped : Bool) (v : View F) : Prop where
  simulation_viewport : v.simulation.viewport = v.viewport
  scene_viewport : v.scene.viewport = v.viewport
  simulation_config : v.simulation.config = v.config
  shape : v.graph.shape = (Graph.ofRecords given : Graph F).shape
  springs : v.simulation.springs = Spring.ofLinks v.graph.links
  placed : v.graph.placed = true
  /-- A view without a step behind it has one before it. -/
  scene : if stepped then v.Drawn else v.Blank ∧ v.simulation.running = true

theorem coherent_ofRecords (records : List Record) (viewport : Viewport F) (config : Config F) :
    Coherent records false (ofRecords records viewport config) where
  simulation_viewport := rfl
  scene_viewport := rfl
  simulation_config := rfl
  shape := Simulation.shape_placedGraph _ _
  springs := rfl
  placed := rfl
  scene := ⟨⟨rfl, rfl, rfl⟩, rfl⟩

variable {given : List Record} {stepped : Bool} {v : View F}

/-! ### Actions keep coherence -/

theorem Coherent.advance (h : Coherent given stepped v) : Coherent given true v.advance.1 := by
  obtain ⟨hviewport, hconfig, -, hsprings, hplaced⟩ := advance_simulation_frame v
  refine ⟨?_, ?_, ?_, ?_, ?_, ?_, ?_⟩
  · rw [hviewport]
    exact h.simulation_viewport
  · rcases hrun : v.simulation.running with - | -
    · rw [advance_of_resting hrun]
      exact h.scene_viewport
    · rw [advance_of_running hrun]
      rfl
  · rw [hconfig]
    exact h.simulation_config
  · rw [shape_advance]
    exact h.shape
  · rw [hsprings, h.springs]
    exact Spring.ofLinks_of_shape (shape_advance v).symm
  · rw [hplaced]
    exact h.placed
  · rcases hrun : v.simulation.running with - | -
    · -- a view at rest has a step behind it
      have hscene := h.scene
      cases stepped with
      | false => simp [hrun] at hscene
      | true =>
        rw [advance_of_resting hrun]
        exact hscene
    · have hgraph := graph_advance_of_running hrun
      refine drawn_of_tick (congrArg Graph.nodes hgraph) (congrArg Graph.links hgraph) ?_
      rw [advance_of_running hrun]
      rfl

theorem Coherent.settle (h : Coherent given stepped v) (most : Nat) :
    Coherent given (stepped || 0 < most) (v.settle most).1 := by
  cases most with
  | zero =>
    have hzero : (stepped || decide (0 < 0)) = stepped := by simp
    rw [hzero]
    exact h
  | succ most =>
    rw [decide_eq_true (Nat.succ_pos most), Bool.or_true]
    rcases hrun : v.simulation.running with - | -
    · rw [settle_of_resting hrun]
      have hadvanced := h.advance
      rwa [advance_of_resting hrun] at hadvanced
    · rw [settle_succ_of_running hrun]
      exact settle_induction (fun _ => Coherent.advance) h.advance most

theorem Coherent.resize (h : Coherent given stepped v) (viewport : Viewport F) :
    Coherent given stepped (v.resize viewport).1 := by
  rcases heq : viewport == v.viewport with - | -
  · rw [resize_of_ne heq]
    refine ⟨rfl, rfl, rfl, (shape_resized v viewport).trans h.shape, rfl, rfl, ?_⟩
    have hscene := h.scene
    cases stepped with
    | false => exact ⟨⟨hscene.1.nodes, hscene.1.edges, hscene.1.labels⟩, rfl⟩
    | true =>
      -- the scene is the old one: it is right because no node has moved
      exact hscene.congr rfl rfl rfl (map_nodeShape_resized v viewport h.placed) rfl
  · rw [resize_of_eq heq]
    exact h

theorem Coherent.gesture (h : Coherent given stepped v) {s : Simulation F}
    (hs : Simulation.Gestured v.simulation s) (drag : Drag F) :
    Coherent given stepped { v with drag, simulation := s } := by
  have hconfig := hs.config
  obtain ⟨hs, hrun⟩ := hs
  have hviewport : s.viewport = v.simulation.viewport := congrArg (·.viewport) hs
  have hsprings : s.springs = v.simulation.springs := congrArg (·.springs) hs
  have hlinks : s.graph.links = v.graph.links := congrArg (·.graph.links) hs
  have hplaced : s.graph.placed = v.graph.placed := congrArg (·.graph.placed) hs
  have hnodes : s.graph.unpinned.nodes = v.graph.unpinned.nodes := congrArg (·.graph.nodes) hs
  have hplaces : s.graph.nodes.map Graph.nodeShape = v.graph.nodes.map Graph.nodeShape := by
    rw [← Graph.map_nodes_unpinned (fun _ => rfl) s.graph, hnodes,
      Graph.map_nodes_unpinned (fun _ => rfl)]
  have hshape : s.graph.shape = v.graph.shape := by
    rw [← s.graph.shape_unpinned, ← v.graph.shape_unpinned]
    exact congrArg (·.graph.shape) hs
  refine ⟨hviewport.trans h.simulation_viewport, h.scene_viewport,
    hconfig.trans h.simulation_config, hshape.trans h.shape, ?_, hplaced.trans h.placed, ?_⟩
  · show s.springs = Spring.ofLinks s.graph.links
    rw [hsprings, hlinks]
    exact h.springs
  · have hscene := h.scene
    cases stepped with
    | false => exact ⟨⟨hscene.1.nodes, hscene.1.edges, hscene.1.labels⟩, hrun hscene.2⟩
    | true => exact hscene.congr rfl rfl rfl hplaces hlinks

/-- Every action keeps coherence. -/
theorem Coherent.perform (h : Coherent given stepped v) (action : Action F) :
    Coherent (action.given given) (action.stepped stepped) (v.perform action).1 := by
  cases action with
  | setDataset records => exact coherent_ofRecords records v.viewport v.config
  | resize viewport => exact h.resize viewport
  | advance => exact h.advance
  | settle most => exact h.settle most
  | dragStart node pointer => exact h.gesture (v.drag.gestured_start _ node pointer) _
  | grab node pointer => exact h.gesture (v.drag.gestured_grab _ node pointer) _
  | dragMove node pointer => exact h.gesture (v.drag.gestured_move _ node pointer) _
  | dragEnd node => exact h.gesture (v.drag.gestured_finish _ node) _

/-- A run keeps coherence, whatever came before it. -/
theorem Coherent.run (h : Coherent given stepped v) (history : List (Action F)) :
    Coherent (history.foldl Action.given given) (history.foldl Action.stepped stepped)
      (v.run history) := by
  induction history generalizing given stepped v with
  | nil => exact h
  | cons action rest ih => exact ih (h.perform action)

/-- **Every view that can be reached is coherent.**  Its parts agree on viewport and
configuration; its graph and its springs are those of the dataset last given,
whatever moved since; and its scene shows nothing, or every node at the place
where it is and every link with the offset it has.  From the first step on, asked
for since the dataset was given, it is the latter. -/
theorem coherent_run (records : List Record) (viewport : Viewport F) (config : Config F)
    (history : List (Action F)) :
    let v := (ofRecords records viewport config).run history
    let g : Graph F := .ofRecords (givenLast records history)
    (v.simulation.viewport = v.viewport ∧ v.scene.viewport = v.viewport ∧
      v.simulation.config = v.config) ∧
    (v.graph.nodes.map (·.name) = g.nodes.map (·.name) ∧
      (∀ name, v.graph.indexOf? name = g.indexOf? name) ∧
      v.graph.links.map Link.undrawn = g.links ∧
      v.simulation.springs = Spring.ofLinks g.links ∧
      v.simulation.springs = Spring.ofLinks v.graph.links) ∧
    (v.Blank ∨ v.Drawn) ∧
    (steppedSince history = true → v.Drawn) ∧
    (steppedSince history = false → v.Blank) := by
  intro v g
  have h : Coherent (givenLast records history) (steppedSince history) v :=
    (coherent_ofRecords records viewport config).run history
  obtain ⟨hnames, hlinks⟩ := Graph.shape_eq_iff.mp h.shape
  have hdrawn : steppedSince history = true → v.Drawn := by
    intro hstepped
    have hscene := h.scene
    rwa [if_pos hstepped] at hscene
  have hblank : steppedSince history = false → v.Blank := by
    intro hstepped
    have hscene := h.scene
    rw [if_neg (by simp [hstepped])] at hscene
    exact hscene.1
  refine ⟨⟨h.simulation_viewport, h.scene_viewport, h.simulation_config⟩,
    ⟨hnames, fun name => ?_, ?_, ?_, h.springs⟩, ?_, hdrawn, hblank⟩
  · rw [Graph.indexOf?_eq_findIdx?_names, h.shape, ← Graph.indexOf?_eq_findIdx?_names]
  · rw [hlinks, Graph.undrawn_links_ofRecords]
  · rw [h.springs]
    exact Spring.ofLinks_of_shape h.shape
  · rcases hstepped : steppedSince history with - | -
    · exact .inl (hblank hstepped)
    · exact .inr (hdrawn hstepped)

end View

end ForceDiagram
