/-
ForceDiagram/Proofs/View/Renaming.lean

Names and types never influence the geometry.

Take a view, give its nodes other names and its links other types, in the graph and
in the scene: this is the changed view (`Renaming.view`).  Acting on the changed view
gives the changed outcome of the action and the same answer (`perform_renamed`): a
step looks at places, velocities and pins, a gesture at numbers and places, and a
tick copies names and types without reading them.  No assumption on the renaming is
used here.  That the changed view is the view of the changed dataset, with the same
numbers for the same nodes, is where names have to stay apart (`ofRecords_renamed`).

Main result: two runs over datasets that differ in names and types only agree in
everything else, at every point (`agree_run_of_renamed`).
-/
import ForceDiagram.Proofs.Graph.Renaming
import ForceDiagram.Proofs.View.Steps
import ForceDiagram.Scalar.Single

namespace ForceDiagram

variable {F : Type} [Scalar F] (r : Renaming)

namespace Renaming

/-- An edge under the type of its number. -/
def edge (k : Nat) (e : EdgeShape F) : EdgeShape F := { e with kind := .ofLabel (r.kind k) }

/-- A label with the type of its edge's number. -/
def label (k : Nat) (l : EdgeLabel F) : EdgeLabel F := { l with text := r.kind k }

def node (n : NodeShape F) : NodeShape F := { n with name := r.name n.name }

/-- The scene with other names and types. -/
def scene (s : Scene F) : Scene F :=
  { s with
    edges := s.edges.mapIdx r.edge
    labels := s.labels.mapIdx r.label
    nodes := s.nodes.map r.node }

/-- The simulation of the graph with other names and types. -/
def simulation (s : Simulation F) : Simulation F := { s with graph := r.graph s.graph }

/-- The view with other names and types. -/
def view (v : View F) : View F :=
  { v with
    simulation := r.simulation v.simulation
    scene := r.scene v.scene }

end Renaming

/-! ### Ticks -/

namespace Graph

variable (g : Graph F) (k : Nat) (l : Link F)

theorem bowed_renamed (unit : F) :
    (r.graph g).bowed unit (r.link k l) = r.link k (g.bowed unit l) := by
  rw [bowed, positionOf_renamed, positionOf_renamed]
  rfl

theorem edgeShape_renamed :
    (r.graph g).edgeShape k (r.link k l) = r.edge k (g.edgeShape k l) := by
  rw [edgeShape, positionOf_renamed, positionOf_renamed]
  rfl

theorem edgeLabel_renamed :
    (r.graph g).edgeLabel k (r.link k l) = r.label k (g.edgeLabel k l) := by
  simp only [edgeLabel, positionOf_renamed, Renaming.link, Renaming.label, Kind.label_ofLabel]

omit [Scalar F] in
/-- What is drawn of changed links is what is drawn of the links, changed. -/
theorem mapIdx_link_renamed {α : Type} {draw draw' : Nat → Link F → α} {change : Nat → α → α}
    (hdraw : ∀ k l, draw' k (r.link k l) = change k (draw k l)) (links : Array (Link F)) :
    (links.mapIdx r.link).toList.mapIdx draw' = (links.toList.mapIdx draw).mapIdx change := by
  apply List.ext_getElem?
  intro k
  simp only [List.getElem?_mapIdx, Array.getElem?_toList, Array.getElem?_mapIdx, Option.map_map]
  exact Option.map_congr fun l _ => hdraw k l

/-- A tick copies names and types and does not read them. -/
theorem tick_renamed (viewport : Viewport F) (config : Config F) :
    (r.graph g).tick viewport config =
      (r.graph (g.tick viewport config).1, r.scene (g.tick viewport config).2) := by
  have hlinks : (r.graph g).links.map ((r.graph g).bowed config.bowDistance) =
      (g.links.map (g.bowed config.bowDistance)).mapIdx r.link := by
    apply Array.ext_getElem?
    intro k
    have hlink : (r.graph g).links[k]? = g.links[k]?.map (r.link k) := Array.getElem?_mapIdx
    rw [Array.getElem?_map, hlink, Array.getElem?_mapIdx, Array.getElem?_map, Option.map_map,
      Option.map_map]
    exact Option.map_congr fun l _ => bowed_renamed r g k l _
  have hnodes : (r.graph g).nodes.map (clamped viewport config.forcePadding) =
      (g.nodes.map (clamped viewport config.forcePadding)).map (Node.renamed r.name) := by
    rw [Renaming.graph, Array.map_map, Array.map_map]
    rfl
  have hshapes : ∀ nodes : Array (Node F),
      (nodes.map (Node.renamed r.name)).toList.map nodeShape =
        (nodes.toList.map nodeShape).map r.node := by
    intro nodes
    rw [Array.toList_map, List.map_map, List.map_map]
    rfl
  rw [tick, hlinks, hnodes, hshapes, mapIdx_link_renamed r (edgeShape_renamed r g),
    mapIdx_link_renamed r (edgeLabel_renamed r g)]
  rfl

end Graph

/-! ### Simulations -/

namespace Simulation

variable (s : Simulation F)

theorem pushedBodies_renamed (alpha : F) :
    (r.simulation s).pushedBodies alpha = (s.pushedBodies alpha).renamed r.name := by
  have hlinks : ∀ b : Bodies F,
      Spring.actAll s.config.linkDistance alpha (r.graph s.graph).links s.springs b =
        Spring.actAll s.config.linkDistance alpha s.graph.links s.springs b := by
    intro b
    rw [← Spring.actAll_map Link.ends_untyped, Graph.map_untyped_renamed,
      Spring.actAll_map Link.ends_untyped]
  rw [pushedBodies, pushedBodies, Charge.renamed_act, Collision.renamed_act,
    Spring.renamed_actAll]
  exact congrArg _ (congrArg _ (hlinks _))

theorem step_renamed : (r.simulation s).step = r.simulation s.step := by
  have hmoved : ∀ (retain : F) (nodes : Array (Node F)),
      (nodes.map (Node.renamed r.name)).map (moved retain) =
        (nodes.map (moved retain)).map (Node.renamed r.name) := by
    intro retain nodes
    rw [Array.map_map, Array.map_map]
    refine Array.map_congr_left fun n _ => ?_
    simp only [Function.comp_apply, moved, Node.renamed_pin]
    split <;> rfl
  have hcooled : (r.simulation s).cooled = s.cooled := rfl
  have hbodies := pushedBodies_renamed r s s.cooled
  simp only [step, hcooled, hbodies]
  simp only [Renaming.simulation, Bodies.renamed, ← map_renamed_centered, hmoved]
  rfl

theorem rested_renamed : (r.simulation s).rested = r.simulation s.rested := by
  unfold rested
  by_cases hcold : s.alpha < s.config.alphaMin
  · rw [if_pos hcold]
    exact if_pos hcold
  · rw [if_neg hcold]
    exact if_neg hcold

theorem start_renamed (g : Graph F) (viewport : Viewport F) (config : Config F) :
    start (r.graph g) viewport config = r.simulation (start g viewport config) := by
  have hsprings : Spring.ofLinks (r.graph g).links = Spring.ofLinks g.links := by
    rw [← Spring.ofLinks_map Link.ends_untyped, Graph.map_untyped_renamed,
      Spring.ofLinks_map Link.ends_untyped]
  have hnodes : (r.graph g).nodes.mapIdx (prepared g.placed config.initialRadius) =
      (g.nodes.mapIdx (prepared g.placed config.initialRadius)).map (Node.renamed r.name) := by
    apply Array.ext_getElem?
    intro k
    simp only [Renaming.graph, Array.getElem?_map, Array.getElem?_mapIdx, Option.map_map]
    rfl
  have hplaced : placedGraph config.initialRadius (r.graph g) =
      r.graph (placedGraph config.initialRadius g) :=
    congrArg (fun nodes => ({ r.graph g with nodes, placed := true } : Graph F)) hnodes
  rw [start, hplaced, hsprings]
  rfl

omit [Scalar F] in
theorem setPin_renamed (node : Nat) (pin : Option (Vec F)) :
    (r.simulation s).setPin node pin = r.simulation (s.setPin node pin) :=
  congrArg (fun graph => ({ s with graph } : Simulation F))
    (Graph.modifyNode_renamed r s.graph node fun _ => rfl)

end Simulation

/-! ### Gestures -/

namespace Drag

variable (d : Drag F) (s : Simulation F) (node : Nat) (pointer offset : Vec F)

theorem begin_renamed : d.begin (r.simulation s) node pointer offset =
    ((d.begin s node pointer offset).1, r.simulation (d.begin s node pointer offset).2) := by
  have hsize : (r.simulation s).graph.nodes.size = s.graph.nodes.size := Array.size_map
  unfold begin
  rw [hsize]
  split
  · refine Prod.ext rfl ?_
    rcases d.isIdle with - | -
    · exact Simulation.setPin_renamed r s node _
    · exact Simulation.setPin_renamed r (reheated s) node _
  · rfl

theorem grab_renamed : d.grab (r.simulation s) node pointer =
    ((d.grab s node pointer).1, r.simulation (d.grab s node pointer).2) := by
  have hnode : (r.simulation s).graph.nodes[node]? =
      s.graph.nodes[node]?.map (Node.renamed r.name) := Array.getElem?_map
  unfold grab
  rw [hnode]
  rcases s.graph.nodes[node]? with - | grabbed
  · rfl
  · exact d.begin_renamed r s node pointer _

theorem move_renamed :
    d.move (r.simulation s) node pointer = r.simulation (d.move s node pointer) := by
  unfold move
  split
  · exact Simulation.setPin_renamed r s node _
  · rfl

theorem finish_renamed : d.finish (r.simulation s) node =
    ((d.finish s node).1, r.simulation (d.finish s node).2) := by
  unfold finish
  split
  · refine Prod.ext rfl ?_
    dsimp only
    split
    · exact Simulation.setPin_renamed r (s.setAlphaTarget 0) node none
    · exact Simulation.setPin_renamed r s node none
  · rfl

end Drag

/-! ### Actions -/

namespace View

/-- Whether an action leaves the dataset as it is. -/
def Action.keepsDataset : Action F → Bool
  | .setDataset _ => false
  | _ => true

variable (v : View F)

theorem advance_renamed : (r.view v).advance = (r.view v.advance.1, v.advance.2) := by
  rcases hrun : v.simulation.running with - | -
  · rw [advance_of_resting hrun]
    exact advance_of_resting hrun
  · have hstep : (r.view v).next = (r.graph v.next.1, r.scene v.next.2) := by
      have hgraph : (r.simulation v.simulation).step.graph = r.graph v.simulation.step.graph := by
        rw [Simulation.step_renamed]
        rfl
      rw [next, next, ← Graph.tick_renamed, ← hgraph]
      rfl
    have hview : (r.view v).advance.1 = r.view v.advance.1 := by
      rw [advance_of_running hrun, advance_of_running (v := r.view v) hrun, hstep]
      have hsimulation : ({ (r.simulation v.simulation).step with graph := r.graph v.next.1 } :
            Simulation F).rested =
          r.simulation ({ v.simulation.step with graph := v.next.1 } : Simulation F).rested := by
        rw [Simulation.step_renamed]
        exact Simulation.rested_renamed r { v.simulation.step with graph := v.next.1 }
      exact congrArg (fun simulation => ({ v with
        simulation, scene := r.scene v.next.2 } : View F)) hsimulation
    have hlive : ∀ w : View F, w.advance.2 = w.advance.1.simulation.running := fun _ => rfl
    refine Prod.ext hview ?_
    rw [hlive, hview, hlive]
    rfl

theorem settleFrom_renamed (taken most : Nat) : settleFrom taken most (r.view v) =
    (r.view (settleFrom taken most v).1, (settleFrom taken most v).2) := by
  induction most generalizing taken v with
  | zero => rfl
  | succ most ih =>
    rw [settleFrom, settleFrom]
    rcases hrun : v.simulation.running with - | -
    · exact if_neg (by simp [Renaming.view, Renaming.simulation, hrun])
    · rw [if_pos rfl, ← ih, advance_renamed]
      exact if_pos hrun

theorem resize_renamed (viewport : Viewport F) :
    (r.view v).resize viewport = (r.view (v.resize viewport).1, (v.resize viewport).2) := by
  rcases heq : viewport == v.viewport with - | -
  · rw [resize_of_ne heq, resize_of_ne (v := r.view v) heq]
    have hunpinned : (r.view v).graph.unpinned = r.graph v.graph.unpinned := by
      have hnodes : (v.graph.nodes.map (Node.renamed r.name)).map ({ · with pin := none }) =
          (v.graph.nodes.map ({ · with pin := none })).map (Node.renamed r.name) := by
        rw [Array.map_map, Array.map_map]
        rfl
      exact congrArg (fun nodes => ({ r.graph v.graph with nodes } : Graph F)) hnodes
    refine Prod.ext ?_ rfl
    rw [resized, hunpinned]
    exact congrArg (fun simulation => ({ v with
      simulation, viewport, drag := .idle, scene := { r.scene v.scene with viewport } } : View F))
      (Simulation.start_renamed r v.graph.unpinned viewport v.config)
  · rw [resize_of_eq heq, resize_of_eq (v := r.view v) heq]

/-- The node at a point does not depend on its name. -/
theorem nodeAt?_renamed (p : Vec F) : (r.view v).nodeAt? p = v.nodeAt? p := by
  simp only [nodeAt?, Renaming.view, Renaming.scene, List.zipIdx_map, List.filter_map,
    List.getLast?_map, Option.map_map]
  rfl

/-- **Acting on the changed view gives the changed outcome and the same answer.** -/
theorem perform_renamed {action : Action F} (h : action.keepsDataset = true) :
    (r.view v).perform action = (r.view (v.perform action).1, (v.perform action).2) := by
  have hdrag : ∀ {d d' : Drag F × Simulation F}, d = (d'.1, r.simulation d'.2) →
      ({ r.view v with drag := d.1, simulation := d.2 } : View F) =
        r.view { v with drag := d'.1, simulation := d'.2 } := by
    rintro d d' rfl
    rfl
  cases action with
  | setDataset records => cases h
  | resize viewport => simp only [perform, resize_renamed]
  | advance => simp only [perform, advance_renamed]
  | settle most => simp only [perform, settle, settleFrom_renamed]
  | dragStart node pointer =>
    exact Prod.ext (hdrag (v.drag.begin_renamed r v.simulation node pointer .zero)) rfl
  | grab node pointer =>
    exact Prod.ext (hdrag (v.drag.grab_renamed r v.simulation node pointer)) rfl
  | dragMove node pointer =>
    exact Prod.ext (congrArg (fun simulation => ({ r.view v with simulation } : View F))
      (v.drag.move_renamed r v.simulation node pointer)) rfl
  | dragEnd node => exact Prod.ext (hdrag (v.drag.finish_renamed r v.simulation node)) rfl

/-! ### Runs -/

theorem run_renamed {history : List (Action F)} (h : ∀ a ∈ history, a.keepsDataset = true) :
    (r.view v).run history = r.view (v.run history) := by
  induction history generalizing v with
  | nil => rfl
  | cons action rest ih =>
    have hfirst := perform_renamed r v (h action List.mem_cons_self)
    show ((r.view v).perform action).1.run rest = r.view ((v.perform action).1.run rest)
    rw [hfirst]
    exact ih _ fun a ha => h a (List.mem_cons_of_mem _ ha)

variable {r}

theorem view_ofRecords_renamed {records : List Record} (hr : r.KeepsApart records)
    (viewport : Viewport F) (config : Config F) :
    ofRecords (r.records records) viewport config = r.view (ofRecords records viewport config) := by
  rw [ofRecords, Graph.ofRecords_renamed hr, Simulation.start_renamed]
  rfl

/-- **Names and types never influence the geometry.**  Two views, one of a dataset and
one of the same dataset with other names, kept apart, and any other types, for one
viewport and configuration, after the same actions: their nodes, links, edges, labels
and discs are the same but for names and types, which differ by the renaming and the
replacement, and all the rest of the two views is the same; so are the answers to
whatever action comes next, and the node at any point. -/
theorem agree_run_of_renamed {records : List Record} (hr : r.KeepsApart records)
    (viewport : Viewport F) (config : Config F) {history : List (Action F)}
    (hkeeps : ∀ a ∈ history, a.keepsDataset = true) :
    let v := (ofRecords records viewport config).run history
    let w := (ofRecords (r.records records) viewport config).run history
    (w.graph.nodes = v.graph.nodes.map (fun n => { n with name := r.name n.name }) ∧
      w.graph.links = v.graph.links.mapIdx (fun k l => { l with kind := .ofLabel (r.kind k) }) ∧
      w.graph.placed = v.graph.placed) ∧
    (w.simulation.alpha = v.simulation.alpha ∧
      w.simulation.alphaTarget = v.simulation.alphaTarget ∧
      w.simulation.running = v.simulation.running ∧
      w.simulation.springs = v.simulation.springs ∧
      w.simulation.jitter = v.simulation.jitter ∧
      w.drag = v.drag ∧ w.viewport = v.viewport ∧ w.config = v.config) ∧
    (w.scene.edges = v.scene.edges.mapIdx (fun k e => { e with kind := .ofLabel (r.kind k) }) ∧
      w.scene.labels = v.scene.labels.mapIdx (fun k l => { l with text := r.kind k }) ∧
      w.scene.nodes = v.scene.nodes.map (fun n => { n with name := r.name n.name }) ∧
      w.scene.viewport = v.scene.viewport) ∧
    (∀ action : Action F, action.keepsDataset = true →
      (w.perform action).2 = (v.perform action).2) ∧
    (∀ p, w.nodeAt? p = v.nodeAt? p) := by
  intro v w
  have hw : w = r.view v := by
    show (ofRecords (r.records records) viewport config).run history = _
    rw [view_ofRecords_renamed hr, run_renamed r _ hkeeps]
  rw [hw]
  refine ⟨⟨rfl, rfl, rfl⟩, ⟨rfl, rfl, rfl, rfl, rfl, rfl, rfl, rfl⟩, ⟨rfl, rfl, rfl, rfl⟩,
    fun action haction => ?_, nodeAt?_renamed r v⟩
  rw [perform_renamed r v haction]

/-- Two links back and forth between renamed nodes, one of which loses its type, the
other of which gets it. -/
theorem agree_run_of_exchanged :
    let r : Renaming :=
      ⟨fun x => "service " ++ x, fun k => if k = 0 then "timeout" else "response"⟩
    let records : List Record := [⟨"a", "b", "response"⟩, ⟨"b", "a", "request-accepted"⟩]
    let history : List (Action Float32) :=
      [.advance, .grab 0 ⟨10, 20⟩, .resize ⟨300, 200⟩, .settle 2, .dragEnd 0]
    let v := (ofRecords records ⟨400, 300⟩ .standard).run history
    let w := (ofRecords (r.records records) ⟨400, 300⟩ .standard).run history
    r.records records =
      [⟨"service a", "service b", "timeout"⟩, ⟨"service b", "service a", "response"⟩] ∧
    r.KeepsApart records ∧ (∀ a ∈ history, a.keepsDataset = true) ∧
    w.graph.nodes = v.graph.nodes.map (fun n => { n with name := "service " ++ n.name }) ∧
    w.simulation.alpha = v.simulation.alpha ∧
    w.scene.nodes = v.scene.nodes.map (fun n => { n with name := "service " ++ n.name }) ∧
    (w.perform (.settle 5)).2 = (v.perform (.settle 5)).2 := by
  intro r records history v w
  have hr : r.KeepsApart records := by
    intro x _ y _ hxy
    exact String.append_right_inj _ |>.mp hxy
  have hkeeps : ∀ a ∈ history, a.keepsDataset = true := by
    simp [history, Action.keepsDataset]
  obtain ⟨hgraph, hsimulation, hscene, hanswers, -⟩ :=
    agree_run_of_renamed hr ⟨400, 300⟩ .standard hkeeps
  exact ⟨rfl, hr, hkeeps, hgraph.1, hsimulation.1, hscene.2.2.1, hanswers (.settle 5) rfl⟩

end View

end ForceDiagram
