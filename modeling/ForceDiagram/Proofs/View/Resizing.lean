/-
ForceDiagram/Proofs/View/Resizing.lean

A resize keeps the layout and forgets how it came about.

Of a view that is started anew for another viewport there remain the nodes where they are, with
their velocities, and the links.  Two views of one dataset whose nodes agree in these are the same
after a resize, up to how they were drawn last: the offsets of the links and the scene (`Akin`).
Nothing but a picture is made of these, and every picture is made anew: a tick overwrites all
offsets before it reads any.  So whatever happens to both views keeps them akin
(`Akin.perform`), and the first action that draws makes one view of the two
(`Akin.perform_eq`).  It does draw both, for a resize leaves them running, and they run until
they are drawn (`running_perform`).

Main result: `resize_forgets`.
-/
import ForceDiagram.Proofs.View.Coherence
import ForceDiagram.Proofs.View.Gestures
import ForceDiagram.Scalar.Single

namespace ForceDiagram

variable {F : Type} [Scalar F]

/-- The node started anew: it is let go, and rests if its velocity is not finite. -/
def Node.resumed (n : Node F) : Node F :=
  { n with velocity := if n.velocity.isFinite then n.velocity else .zero, pin := none }

/-- Nodes of the same names that agree in place and motion are resumed alike. -/
theorem map_resumed_eq {nodes nodes' : Array (Node F)}
    (hnames : nodes.map (·.name) = nodes'.map (·.name))
    (hmotion : nodes.map (fun n => (n.pos, n.velocity)) =
      nodes'.map fun n => (n.pos, n.velocity)) :
    nodes.map Node.resumed = nodes'.map Node.resumed := by
  apply Array.ext_getElem?
  intro i
  have hname := congrArg (·[i]?) hnames
  have hmoved := congrArg (·[i]?) hmotion
  simp only [Array.getElem?_map] at hname hmoved ⊢
  generalize nodes[i]? = n at *
  generalize nodes'[i]? = n' at *
  rcases n with - | n <;> rcases n' with - | n'
  · rfl
  · cases hname
  · cases hname
  · obtain ⟨hpos, hvelocity⟩ := Prod.mk.inj (Option.some.inj hmoved)
    have hname : n.name = n'.name := Option.some.inj hname
    simp only [Option.map_some, Node.resumed, hname, hpos, hvelocity]

/-! ### Before drawing -/

/-- The graph as it was before it was drawn. -/
def Graph.undrawn (g : Graph F) : Graph F := { g with links := g.links.map Link.undrawn }

/-- A tick does not ask how links were drawn before. -/
theorem Graph.tick_undrawn (g : Graph F) (viewport : Viewport F) (config : Config F) :
    g.undrawn.tick viewport config = g.tick viewport config := by
  have hbowed : ∀ l, g.bowed config.bowDistance l.undrawn = g.bowed config.bowDistance l :=
    fun _ => rfl
  have hlinks : g.undrawn.links.map (g.undrawn.bowed config.bowDistance) =
      g.links.map (g.bowed config.bowDistance) := map_map_of_eq hbowed g.links
  rw [tick, hlinks]
  rfl

namespace Simulation

/-- The simulation of the graph as it was before it was drawn. -/
def undrawn (s : Simulation F) : Simulation F := { s with graph := s.graph.undrawn }

theorem step_undrawn (s : Simulation F) : s.undrawn.step = s.step.undrawn := by
  have hcooled : s.undrawn.cooled = s.cooled := rfl
  have hbodies : s.undrawn.pushedBodies s.cooled = s.pushedBodies s.cooled :=
    congrArg (fun linked => (charge s.config s.cooled).act ((collision s.config).act linked))
      (Spring.actAll_map Link.ends_undrawn _ _ s.graph.links _ _)
  rw [step, hcooled, hbodies]
  rfl

theorem start_undrawn (g : Graph F) (viewport : Viewport F) (config : Config F) :
    start g.undrawn viewport config = (start g viewport config).undrawn :=
  congrArg (fun springs => ({ (start g viewport config).undrawn with springs } : Simulation F))
    (Spring.ofLinks_map Link.ends_undrawn g.links)

theorem undrawn_undrawn (s : Simulation F) : s.undrawn.undrawn = s.undrawn := by
  have hundrawn : ∀ l : Link F, l.undrawn.undrawn = l.undrawn := fun _ => rfl
  exact congrArg (fun links => ({ s with graph := { s.graph with links } } : Simulation F))
    (map_map_of_eq hundrawn s.graph.links)

end Simulation

/-! ### Gestures -/

namespace Drag

variable (d : Drag F) (s : Simulation F) (node : Nat) (pointer offset : Vec F)

theorem begin_undrawn : d.begin s.undrawn node pointer offset =
    ((d.begin s node pointer offset).1, (d.begin s node pointer offset).2.undrawn) := by
  have hsize : s.undrawn.graph.nodes.size = s.graph.nodes.size := rfl
  unfold begin
  rw [hsize]
  split
  · rcases d.isIdle with - | - <;> rfl
  · rfl

theorem grab_undrawn : d.grab s.undrawn node pointer =
    ((d.grab s node pointer).1, (d.grab s node pointer).2.undrawn) := by
  have hnode : s.undrawn.graph.nodes[node]? = s.graph.nodes[node]? := rfl
  unfold grab
  rw [hnode]
  rcases s.graph.nodes[node]? with - | grabbed
  · rfl
  · exact d.begin_undrawn s node pointer _

theorem move_undrawn : d.move s.undrawn node pointer = (d.move s node pointer).undrawn := by
  unfold move
  split <;> rfl

theorem finish_undrawn : d.finish s.undrawn node =
    ((d.finish s node).1, (d.finish s node).2.undrawn) := by
  unfold finish
  split
  · dsimp only
    split <;> rfl
  · rfl

end Drag

namespace View

/-! ### Views that are drawn differently -/

/-- The view as it was before it was drawn. -/
def undrawn (v : View F) : View F :=
  { v with simulation := v.simulation.undrawn, scene := .empty v.viewport }

/-- Two views that differ in how they were drawn at most. -/
def Akin (v w : View F) : Prop := v.undrawn = w.undrawn

variable {v w : View F}

theorem Akin.nodes_eq (h : Akin v w) : v.graph.nodes = w.graph.nodes :=
  congrArg (·.simulation.graph.nodes) h

theorem Akin.running_eq (h : Akin v w) : v.simulation.running = w.simulation.running :=
  congrArg (·.simulation.running) h

theorem undrawn_undrawn (v : View F) : v.undrawn.undrawn = v.undrawn :=
  congrArg (fun simulation => { v.undrawn with simulation }) v.simulation.undrawn_undrawn

/-- A step that is drawn does not ask how the view was drawn before. -/
theorem advance_undrawn_of_running (h : v.simulation.running = true) :
    v.undrawn.advance = v.advance := by
  have hnext : v.undrawn.next = v.next := by
    have hstep : v.undrawn.simulation.step.graph = v.simulation.step.graph.undrawn :=
      congrArg (·.graph) v.simulation.step_undrawn
    rw [next, hstep, Graph.tick_undrawn]
    rfl
  have hview : v.undrawn.advance.1 = v.advance.1 := by
    rw [advance_of_running h, advance_of_running (v := v.undrawn) h, hnext]
    exact congrArg (fun s : Simulation F => { v with
      simulation := ({ s with graph := v.next.1 } : Simulation F).rested
      scene := v.next.2 }) v.simulation.step_undrawn
  have hlive : ∀ w : View F, w.advance.2 = w.advance.1.simulation.running := fun _ => rfl
  refine Prod.ext hview ?_
  rw [hlive, hlive, hview]

theorem Akin.advance_eq (h : Akin v w) (hrun : v.simulation.running = true) :
    v.advance = w.advance := by
  have hrun' : w.simulation.running = true := h.running_eq ▸ hrun
  rw [← advance_undrawn_of_running hrun, ← advance_undrawn_of_running hrun']
  exact congrArg advance h

/-! ### Resizing -/

/-- A view that was placed before resumes its nodes, each where it is. -/
theorem nodes_resized (h : v.graph.placed = true) (viewport : Viewport F) :
    (v.resized viewport).graph.nodes = v.graph.nodes.map Node.resumed := by
  have hnodes : (v.resized viewport).graph.nodes =
      (v.graph.nodes.map fun n => ({ n with pin := none } : Node F)).mapIdx
        (Simulation.prepared v.graph.placed v.config.initialRadius) := rfl
  rw [hnodes, h]
  apply Array.ext_getElem?
  intro i
  simp only [Array.getElem?_mapIdx, Array.getElem?_map, Option.map_map]
  rfl

theorem resized_undrawn (v : View F) (viewport : Viewport F) :
    (v.undrawn.resized viewport).undrawn = (v.resized viewport).undrawn := by
  have hstart : (Simulation.start v.graph.unpinned.undrawn viewport v.config).undrawn =
      (Simulation.start v.graph.unpinned viewport v.config).undrawn := by
    rw [Simulation.start_undrawn, Simulation.undrawn_undrawn]
  exact congrArg (fun simulation => { (v.resized viewport).undrawn with simulation }) hstart

/-- Views of one shape whose nodes agree in place and motion are akin once they are resized. -/
theorem akin_resized (hshape : v.graph.shape = w.graph.shape) (hv : v.graph.placed = true)
    (hw : w.graph.placed = true) (hconfig : v.config = w.config)
    (hmotion : v.graph.nodes.map (fun n => (n.pos, n.velocity)) =
      w.graph.nodes.map fun n => (n.pos, n.velocity)) (viewport : Viewport F) :
    Akin (v.resized viewport) (w.resized viewport) := by
  obtain ⟨hnames, hlinks⟩ := Graph.shape_eq_iff.mp hshape
  have hread : ∀ u : View F, (u.resized viewport).undrawn =
      ⟨⟨⟨(u.resized viewport).graph.nodes, u.graph.links.map Link.undrawn, true⟩, u.config,
        viewport, 1, 0, true, Spring.ofLinks u.graph.links, .initial⟩, viewport, u.config, .idle,
        .empty viewport⟩ := fun _ => rfl
  rw [Akin, hread, hread, nodes_resized hv, nodes_resized hw, map_resumed_eq hnames hmotion,
    hlinks, Spring.ofLinks_of_shape hshape, hconfig]

/-! ### Actions -/

theorem settleFrom_undrawn (taken most : Nat) (v : View F) :
    (settleFrom taken most v.undrawn).1.undrawn = (settleFrom taken most v).1.undrawn := by
  cases most with
  | zero => exact v.undrawn_undrawn
  | succ most =>
    -- the first turn, if there is one, draws both anew
    have hundrawn : v.undrawn.simulation.running = v.simulation.running := rfl
    rw [settleFrom, settleFrom, hundrawn]
    split
    · next hrun => rw [advance_undrawn_of_running hrun]
    · exact v.undrawn_undrawn

/-- An action does not ask how a view was drawn before. -/
theorem perform_undrawn (v : View F) (action : Action F) :
    (v.undrawn.perform action).1.undrawn = (v.perform action).1.undrawn := by
  have hdrag : ∀ {d e : Drag F × Simulation F}, d = (e.1, e.2.undrawn) →
      ({ v.undrawn with drag := d.1, simulation := d.2 } : View F).undrawn =
        ({ v with drag := e.1, simulation := e.2 } : View F).undrawn := by
    rintro d e rfl
    exact undrawn_undrawn { v with drag := e.1, simulation := e.2 }
  cases action with
  | setDataset records => rfl
  | resize viewport =>
    rcases heq : viewport == v.viewport with - | -
    · rw [perform, perform, resize_of_ne heq, resize_of_ne (v := v.undrawn) heq]
      exact v.resized_undrawn viewport
    · rw [perform, perform, resize_of_eq heq, resize_of_eq (v := v.undrawn) heq]
      exact v.undrawn_undrawn
  | advance =>
    rcases hrun : v.simulation.running with - | -
    · rw [perform, perform, advance_of_resting hrun, advance_of_resting (v := v.undrawn) hrun]
      exact v.undrawn_undrawn
    · rw [perform, perform, advance_undrawn_of_running hrun]
  | settle most => exact settleFrom_undrawn 0 most v
  | dragStart node pointer => exact hdrag (v.drag.begin_undrawn v.simulation node pointer .zero)
  | grab node pointer => exact hdrag (v.drag.grab_undrawn v.simulation node pointer)
  | dragMove node pointer =>
    have hmove := v.drag.move_undrawn v.simulation node pointer
    exact hdrag (d := (v.drag, _)) (e := (v.drag, _)) (congrArg (Prod.mk v.drag) hmove)
  | dragEnd node => exact hdrag (v.drag.finish_undrawn v.simulation node)

/-- Whether an action draws a view that runs.  Another dataset is drawn as nothing at all. -/
def Action.draws : Action F → Bool
  | .setDataset _ | .advance => true
  | .settle most => 0 < most
  | _ => false

/-- A view goes on running until it is drawn. -/
theorem running_perform (h : v.simulation.running = true) {action : Action F}
    (hdraws : action.draws = false) : (v.perform action).1.simulation.running = true := by
  cases action with
  | setDataset records => rfl
  | resize viewport =>
    rcases heq : viewport == v.viewport with - | -
    · rw [perform, resize_of_ne heq]
      rfl
    · rw [perform, resize_of_eq heq]
      exact h
  | advance => cases hdraws
  | settle most =>
    obtain rfl : most = 0 := by simpa [Action.draws] using hdraws
    exact h
  | dragStart node pointer => exact (v.drag.gestured_start v.simulation node pointer).running h
  | grab node pointer => exact (v.drag.gestured_grab v.simulation node pointer).running h
  | dragMove node pointer => exact (v.drag.gestured_move v.simulation node pointer).running h
  | dragEnd node => exact (v.drag.gestured_finish v.simulation node).running h

/-- Whatever happens to views that are akin, they stay akin. -/
theorem Akin.perform (h : Akin v w) (action : Action F) :
    Akin (v.perform action).1 (w.perform action).1 := by
  have hperform := congrArg (fun u : View F => (u.perform action).1.undrawn) h
  rwa [Akin, ← perform_undrawn, ← perform_undrawn w]

/-- Views that are akin and run are the same once they are drawn. -/
theorem Akin.perform_eq (h : Akin v w) (hrun : v.simulation.running = true) {action : Action F}
    (hdraws : action.draws = true) : (v.perform action).1 = (w.perform action).1 := by
  cases action with
  | setDataset records =>
    have hviewport : v.viewport = w.viewport := congrArg (·.viewport) h
    have hconfig : v.config = w.config := congrArg (·.config) h
    rw [View.perform, View.perform, setDataset, setDataset, hviewport, hconfig]
  | advance => rw [View.perform, View.perform, h.advance_eq hrun]
  | settle most =>
    obtain ⟨more, rfl⟩ : ∃ more, most = more + 1 :=
      Nat.exists_eq_succ_of_ne_zero (Nat.pos_iff_ne_zero.mp (of_decide_eq_true hdraws))
    have hrun' : w.simulation.running = true := h.running_eq ▸ hrun
    show (v.settle (more + 1)).1 = (w.settle (more + 1)).1
    rw [settle_succ_of_running hrun, settle_succ_of_running hrun', h.advance_eq hrun]
  | resize viewport => cases hdraws
  | dragStart node pointer => cases hdraws
  | grab node pointer => cases hdraws
  | dragMove node pointer => cases hdraws
  | dragEnd node => cases hdraws

/-! ### Runs -/

theorem Akin.run (h : Akin v w) (further : List (Action F)) :
    Akin (v.run further) (w.run further) := by
  induction further generalizing v w with
  | nil => exact h
  | cons action rest ih => exact ih (h.perform action)

/-- Views that are akin and run are the same from the first action on that draws them. -/
theorem Akin.run_eq (h : Akin v w) (hrun : v.simulation.running = true)
    {further : List (Action F)} (hdraws : further.any Action.draws = true) :
    v.run further = w.run further := by
  induction further generalizing v w with
  | nil => cases hdraws
  | cons action rest ih =>
    rcases haction : action.draws with - | -
    · rw [List.any_cons, haction, Bool.false_or] at hdraws
      exact ih (h.perform action) (running_perform hrun haction) hdraws
    · exact congrArg (fun u : View F => u.run rest) (h.perform_eq hrun haction)

/-- **A resize keeps the layout and forgets everything else.**  Of every view that can be reached:

* for its own viewport nothing happens;
* for any other one the nodes keep their names and places, and their velocities unless these are
  not finite, and the links stay as they are; no node is held and no gesture is under way, and
  the simulation runs at full heat and cools down;
* take any other view that can be reached, of the same dataset and configuration and with its
  nodes at the same places and as fast.  After a resize of both to one viewport, and whatever
  happens to both then, their nodes are the same, and from the next step on, or the next
  dataset, so are their scenes. -/
theorem resize_forgets (records : List Record) (viewport : Viewport F) (config : Config F)
    (history : List (Action F)) :
    let v := (ofRecords records viewport config).run history
    (∀ size, (size == v.viewport) = true → v.resize size = (v, false)) ∧
    (∀ size, (size == v.viewport) = false →
      let w := (v.resize size).1
      (v.resize size).2 = true ∧
      w.graph.nodes.map (·.name) = v.graph.nodes.map (·.name) ∧
      w.graph.nodes.map (·.pos) = v.graph.nodes.map (·.pos) ∧
      w.graph.nodes.map (·.velocity) =
        v.graph.nodes.map (fun n => if n.velocity.isFinite then n.velocity else .zero) ∧
      w.graph.links = v.graph.links ∧
      (∀ n ∈ w.graph.nodes, n.pin = none) ∧ w.drag.active = [] ∧
      w.simulation.running = true ∧ w.simulation.alpha = 1 ∧ w.simulation.alphaTarget = 0) ∧
    ∀ (records' : List Record) (viewport' : Viewport F) (history' : List (Action F)),
      let v' := (ofRecords records' viewport' config).run history'
      givenLast records history = givenLast records' history' →
      v.graph.nodes.map (fun n => (n.pos, n.velocity)) =
        v'.graph.nodes.map (fun n => (n.pos, n.velocity)) →
      ∀ size, (size == v.viewport) = false → (size == v'.viewport) = false →
        ∀ further,
          let w := (v.resize size).1.run further
          let w' := (v'.resize size).1.run further
          w.graph.nodes = w'.graph.nodes ∧
            (further.any Action.draws = true → w.scene = w'.scene) := by
  intro v
  have hv := (coherent_ofRecords records viewport config).run history
  refine ⟨fun size hsize => resize_of_eq hsize, fun size hsize => ?_, ?_⟩
  · rw [resize_of_ne hsize]
    have hnodes := nodes_resized hv.placed size
    have hread : ∀ {α : Type} {f g : Node F → α}, (∀ n, f n.resumed = g n) →
        (v.resized size).graph.nodes.map f = v.graph.nodes.map g := by
      intro α f g hf
      rw [hnodes, Array.map_map]
      exact congrArg (Array.map · _) (funext hf)
    refine ⟨rfl, hread fun _ => rfl, hread fun _ => rfl, hread fun _ => rfl, rfl,
      fun n hn => ?_, rfl, rfl, rfl, rfl⟩
    obtain ⟨m, -, rfl⟩ := Array.mem_map.mp (hnodes ▸ hn)
    rfl
  · intro records' viewport' history' v' hgiven hmotion size hsize hsize' further
    have hv' := (coherent_ofRecords records' viewport' config).run history'
    have hakin : Akin (v.resized size) (v'.resized size) := by
      have hshape : v.graph.shape = v'.graph.shape := by
        rw [hv.shape, hv'.shape]
        exact congrArg (fun given => (Graph.ofRecords given : Graph F).shape) hgiven
      have hconfig : ∀ records viewport history,
          ((ofRecords records viewport config).run history).config = config :=
        fun records viewport history =>
          ((held_ofRecords records viewport config).run history).view_config
      exact akin_resized hshape hv.placed hv'.placed ((hconfig _ _ _).trans (hconfig _ _ _).symm)
        hmotion size
    rw [resize_of_ne hsize, resize_of_ne hsize']
    exact ⟨(hakin.run further).nodes_eq, fun hdraws => congrArg (·.scene) (hakin.run_eq rfl hdraws)⟩

/-- A fresh view, and one for another viewport that has been given the dataset and of which a
node is held: they are resized, a node is dragged on both, and there are two steps. -/
theorem resize_forgets_of_held :
    let records : List Record := [⟨"a", "b", "response"⟩, ⟨"b", "a", "request-accepted"⟩]
    let history' : List (Action Float32) := [.setDataset records, .dragStart 1 ⟨30, 40⟩]
    let v : View Float32 := ofRecords records ⟨400, 300⟩ .standard
    let v' : View Float32 := (ofRecords [] ⟨600, 400⟩ .standard).run history'
    let further : List (Action Float32) := [.grab 0 ⟨10, 20⟩, .settle 2]
    let size : Viewport Float32 := ⟨320, 200⟩
    v.graph.nodes.map (·.pin.isSome) = #[false, false] ∧
      v'.graph.nodes.map (·.pin.isSome) = #[false, true] ∧
      givenLast records ([] : List (Action Float32)) = givenLast [] history' ∧
      v.graph.nodes.map (fun n => (n.pos, n.velocity)) =
        v'.graph.nodes.map (fun n => (n.pos, n.velocity)) ∧
      (size == v.viewport) = false ∧ (size == v'.viewport) = false ∧
      ((v.resize size).1.run further).graph.nodes =
        ((v'.resize size).1.run further).graph.nodes ∧
      ((v.resize size).1.run further).scene = ((v'.resize size).1.run further).scene := by
  intro records history' v v' further size
  have hmotion : v.graph.nodes.map (fun n => (n.pos, n.velocity)) =
      v'.graph.nodes.map fun n => (n.pos, n.velocity) := by
    let w : View Float32 := ofRecords records ⟨600, 400⟩ .standard
    have hreleased := (w.drag.gestured_start w.simulation 1 ⟨30, 40⟩).released
    have hnodes := congrArg (fun s : Simulation Float32 =>
      s.graph.nodes.map fun n => (n.pos, n.velocity)) hreleased
    rw [Simulation.released, Simulation.released, Graph.map_nodes_unpinned (fun _ => rfl),
      Graph.map_nodes_unpinned (fun _ => rfl)] at hnodes
    exact hnodes.symm
  have hsize : (size == v.viewport) = false := by decide +kernel
  have hsize' : (size == v'.viewport) = false := by decide +kernel
  obtain ⟨hnodes, hscene⟩ := (resize_forgets records ⟨400, 300⟩ .standard []).2.2 [] ⟨600, 400⟩
    history' rfl hmotion size hsize hsize' further
  exact ⟨by decide +kernel, by decide +kernel, rfl, hmotion, hsize, hsize', hnodes, hscene rfl⟩

end View

end ForceDiagram
