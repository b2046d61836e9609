/-
ForceDiagram/Proofs/Checked/View.lean

The layout never indexes out of range.

A dataset has its edges flagged, a start looks up the degrees its springs come from, a tick
the ends of every link, a gesture that begins the node it is on and one that ends its place
among the gestures.  With the steps of a simulation these are all accesses that a view
makes, and so every action has a checked counterpart (`View.performChecked`).

What keeps them in range is the coherence of views: at every moment of a history the links
are those of the dataset last given, between nodes as many as it names, and the springs
belong to the links (`View.Coherent.inRange`).  A simulation that has lost its graph keeps
its springs, more of them than its links, which are none (`Simulation.inRange_emptied`).

Main result: `View.run_in_range`.
-/
import ForceDiagram.Proofs.Checked.Bow
import ForceDiagram.Proofs.Checked.Force
import ForceDiagram.Proofs.View.Coherence

namespace ForceDiagram

variable {F : Type} [Scalar F]

namespace Graph

/-! ### Datasets -/

/-- The graph of a dataset. -/
def ofRecordsChecked (records : List Record) : Checked (Graph F) := do
  let names := namesOf records
  let bows ← Bow.ofEndsChecked (records.map (endsOf names)).toArray
  return {
    nodes := (names.map Node.named).toArray
    links := (records.zipWith (linkOf names) bows.toList).toArray
    placed := false }

theorem ofRecordsChecked_eq (records : List Record) :
    ofRecordsChecked records = .ok (ofRecords records : Graph F) := by
  have hlinks : (records.zipWith (linkOf (namesOf records)) (bowsOf records)).toArray =
      (ofRecords records : Graph F).links := by
    rw [← links_ofRecords]
  rw [ofRecordsChecked, Bow.ofEndsChecked_eq]
  exact congrArg (fun links => Except.ok (⟨_, links, _⟩ : Graph F)) hlinks

/-! ### Ticks -/

/-- A link with the offset that belongs to the positions of its ends, as it is drawn, and
its label. -/
def drawChecked (unit : F) (g : Graph F) (index : Nat) (l : Link F) :
    Checked (Link F × EdgeShape F × EdgeLabel F) := do
  let start := (← entry g.nodes l.source).pos
  let finish := (← entry g.nodes l.target).pos
  let offset := sideways (l.bow.factor * unit) start finish
  let delta := finish - start
  return ({ l with offset },
    { id := linkId index
      kind := l.kind
      start
      finish
      offset },
    { pathId := linkId index
      text := l.kind.label
      anchor := (start + finish) * (0.5 : F) + offset
      flipped := finish.x < start.x
      pathAngle := Scalar.atan2 delta.y delta.x })

/-- The graph after a tick, and its scene. -/
def tickChecked (viewport : Viewport F) (config : Config F) (g : Graph F) :
    Checked (Graph F × Scene F) := do
  let drawn ← g.links.toList.zipIdx.mapM fun p => g.drawChecked config.bowDistance p.2 p.1
  let nodes := g.nodes.map (clamped viewport config.forcePadding)
  return ({ g with nodes, links := (drawn.map (·.1)).toArray },
   { viewport
     edges := drawn.map (·.2.1)
     labels := drawn.map (·.2.2)
     nodes := nodes.toList.map nodeShape })

variable {g h : Graph F}

theorem drawChecked_eq (unit : F) (index : Nat) {l : Link F} (hsource : l.source < g.nodes.size)
    (htarget : l.target < g.nodes.size) :
    g.drawChecked unit index l = .ok (g.bowed unit l, g.edgeShape index (g.bowed unit l),
      g.edgeLabel index (g.bowed unit l)) := by
  have hposition : ∀ {i : Nat} {n : Node F}, g.nodes[i]? = some n → g.positionOf i = n.pos := by
    intro i n hn
    rw [positionOf, hn]
    rfl
  obtain ⟨source, hs⟩ := exists_entry hsource
  obtain ⟨target, ht⟩ := exists_entry htarget
  simp only [drawChecked, entry_of_some hs, entry_of_some ht, Checked.ok_bind, bowed, edgeShape,
    edgeLabel, hposition hs, hposition ht]
  rfl

theorem tickChecked_eq (viewport : Viewport F) (config : Config F) (hg : g.Closed) :
    g.tickChecked viewport config = .ok (g.tick viewport config) := by
  have hdrawn : ∀ p ∈ g.links.toList.zipIdx, g.drawChecked config.bowDistance p.2 p.1 =
      .ok (g.bowed config.bowDistance p.1, g.edgeShape p.2 (g.bowed config.bowDistance p.1),
        g.edgeLabel p.2 (g.bowed config.bowDistance p.1)) := by
    intro p hp
    have hlink : p.1 ∈ g.links := Array.mem_toList_iff.mp (List.fst_mem_of_mem_zipIdx hp)
    obtain ⟨hsource, htarget⟩ := hg p.1 hlink
    exact drawChecked_eq config.bowDistance p.2 hsource htarget
  -- links are drawn under their numbers, before or after they got their offsets
  have hlinks : (g.links.toList.zipIdx.map fun p => g.bowed config.bowDistance p.1).toArray =
      g.links.map (g.bowed config.bowDistance) := by
    apply Array.toList_inj.mp
    rw [Array.toList_map, ← List.zipIdx_map_fst 0 g.links.toList, List.map_map]
    simp only [List.zipIdx_map_fst]
    rfl
  have hnumbered : ∀ {α : Type} (f : Nat → Link F → α),
      (g.links.toList.zipIdx.map fun p => f p.2 (g.bowed config.bowDistance p.1)) =
        (g.links.map (g.bowed config.bowDistance)).toList.mapIdx f := by
    intro α f
    rw [Array.toList_map, List.mapIdx_eq_zipIdx_map, List.zipIdx_map, List.map_map]
    rfl
  rw [tickChecked, mapM_eq_ok hdrawn, Checked.ok_bind]
  simp only [List.map_map, Function.comp_def, hlinks, hnumbered]
  rfl

end Graph

/-! ### Simulations -/

namespace Simulation

/-- A hot, running simulation of a graph. -/
def startChecked (g : Graph F) (viewport : Viewport F) (config : Config F) :
    Checked (Simulation F) := do
  let graph := placedGraph config.initialRadius g
  let springs ← Spring.ofLinksChecked graph.nodes.size graph.links
  return { start g viewport config with springs }

/-- One turn of the stepping loop. -/
def advanceChecked {α : Type} (onTick : Graph F → Checked (Graph F × α)) (s : Simulation F) :
    Checked (Simulation F × Option α) :=
  if s.running then do
    let stepped ← s.stepChecked
    let (graph, result) ← onTick stepped.graph
    return (({ stepped with graph } : Simulation F).rested, some result)
  else return (s, none)

variable {s : Simulation F}

theorem startChecked_eq {g : Graph F} (hg : g.Closed) (viewport : Viewport F)
    (config : Config F) : startChecked g viewport config = .ok (start g viewport config) := by
  have hplaced : (placedGraph config.initialRadius g).Closed :=
    hg.of_shape (shape_placedGraph _ _)
  rw [startChecked, Spring.ofLinksChecked_eq hplaced]
  rfl

theorem advanceChecked_eq {α : Type} {onTick : Graph F → Checked (Graph F × α)}
    {plain : Graph F → Graph F × α} (h : s.InRange)
    (htick : onTick s.step.graph = .ok (plain s.step.graph)) :
    s.advanceChecked onTick = .ok (s.advance plain) := by
  unfold advanceChecked advance
  split
  · rw [stepChecked_eq h, Checked.ok_bind, htick]
    rfl
  · rfl

theorem InRange.step (h : s.InRange) : s.step.InRange :=
  ⟨h.closed.of_shape s.shape_step, h.springs⟩

omit [Scalar F] in
/-- A simulation without its graph has no links, and springs to spare. -/
theorem inRange_emptied (s : Simulation F) : s.emptied.InRange :=
  ⟨fun _ hl => absurd hl (Array.not_mem_empty _), Nat.zero_le _⟩

omit [Scalar F] in
theorem InRange.restart (h : s.InRange) : s.restart.InRange := ⟨h.closed, h.springs⟩

/-- The given number of steps, whether the simulation runs or not. -/
def stepsChecked : Nat → Simulation F → Checked (Simulation F)
  | 0, s => return s
  | steps + 1, s => do (← s.stepChecked).stepsChecked steps

/-- The given number of turns of the stepping loop, each of which may end in a tick. -/
def turnsChecked (viewport : Viewport F) (config : Config F) :
    Nat → Simulation F → Checked (Simulation F)
  | 0, s => return s
  | turns + 1, s => do
    let (s, _) ← s.advanceChecked (Graph.tickChecked viewport config)
    s.turnsChecked viewport config turns

theorem stepsChecked_eq (h : s.InRange) (steps : Nat) :
    s.stepsChecked steps = .ok (step^[steps] s) := by
  induction steps generalizing s with
  | zero => rfl
  | succ steps ih =>
    rw [stepsChecked, stepChecked_eq h, Checked.ok_bind, ih h.step]
    rfl

theorem InRange.advance (h : s.InRange) (viewport : Viewport F) (config : Config F) :
    (s.advance (Graph.tick viewport config)).1.InRange := by
  unfold Simulation.advance
  split
  · -- a tick gives the links their offsets, and leaves their ends and their number
    have hshape := s.step.graph.shape_tick viewport config
    have hticked := h.step.closed.of_shape hshape
    have hlinks : (s.step.graph.tick viewport config).1.links.size ≤ s.springs.size := by
      rw [Graph.tick, Array.size_map]
      exact h.springs
    constructor
    · rw [rested_graph]
      exact hticked
    · rw [rested_graph, rested_springs]
      exact hlinks
  · exact h

theorem turnsChecked_eq (h : s.InRange) (viewport : Viewport F) (config : Config F)
    (turns : Nat) :
    s.turnsChecked viewport config turns =
      .ok ((fun s => (s.advance (Graph.tick viewport config)).1)^[turns] s) := by
  induction turns generalizing s with
  | zero => rfl
  | succ turns ih =>
    rw [turnsChecked, advanceChecked_eq h (Graph.tickChecked_eq viewport config h.step.closed)]
    exact ih (h.advance viewport config)

end Simulation

/-! ### Gestures -/

namespace Drag

/-- Begins a gesture that keeps the given distance. -/
def beginChecked (d : Drag F) (s : Simulation F) (node : Nat) (pointer offset : Vec F) :
    Checked (Drag F × Simulation F) :=
  if node < s.graph.nodes.size && !d.isDragging node then do
    let heated := if d.isIdle then reheated s else s
    let nodes ← alter heated.graph.nodes node ({ · with pin := some (pointer + offset) })
    return (⟨⟨node, offset⟩ :: d.active⟩, { heated with graph := { heated.graph with nodes } })
  else return (d, s)

def startChecked (d : Drag F) (s : Simulation F) (node : Nat) (pointer : Vec F) :
    Checked (Drag F × Simulation F) :=
  d.beginChecked s node pointer .zero

def grabChecked (d : Drag F) (s : Simulation F) (node : Nat) (pointer : Vec F) :
    Checked (Drag F × Simulation F) :=
  match s.graph.nodes[node]? with
  | some grabbed => d.beginChecked s node pointer (grabbed.pos - pointer)
  | none => return (d, s)

/-- A gesture ends, and is removed by its place among the others. -/
def finishChecked (d : Drag F) (s : Simulation F) (node : Nat) :
    Checked (Drag F × Simulation F) :=
  match d.active.findIdx? fun g => g.node == node with
  | none => return (d, s)
  | some place => do
    let _ ← entry d.active.toArray place
    let rest : Drag F := ⟨d.active.eraseIdx place⟩
    let cooling := if rest.isIdle then s.setAlphaTarget 0 else s
    return (rest, cooling.setPin node none)

variable (d : Drag F) (s : Simulation F) (node : Nat) (pointer offset : Vec F)

theorem beginChecked_eq :
    d.beginChecked s node pointer offset = .ok (d.begin s node pointer offset) := by
  unfold beginChecked begin
  split
  · next hbegins =>
    have hnode : node < (if d.isIdle then reheated s else s).graph.nodes.size := by
      have hnode : node < s.graph.nodes.size := by
        simpa using (Bool.and_eq_true_iff.mp hbegins).1
      split <;> exact hnode
    simp only [alter_of_lt hnode]
    rfl
  · rfl

theorem grabChecked_eq : d.grabChecked s node pointer = .ok (d.grab s node pointer) := by
  rw [grabChecked, grab]
  rcases s.graph.nodes[node]? with - | grabbed
  · rfl
  · exact d.beginChecked_eq s node pointer _

theorem finishChecked_eq : d.finishChecked s node = .ok (d.finish s node) := by
  -- the gesture removed by its place is the first one on the node
  have herase : d.active.eraseP (fun g => g.node == node) =
      match d.active.findIdx? (fun g => g.node == node) with
      | none => d.active
      | some place => d.active.eraseIdx place := List.eraseP_eq_eraseIdx
  have hfound : d.isDragging node = (d.active.findIdx? fun g => g.node == node).isSome := by
    rw [isDragging, gesture?, List.findIdx?_isSome, List.isSome_find?]
  unfold finishChecked finish
  rw [hfound]
  rcases hplace : d.active.findIdx? (fun g => g.node == node) with - | place
  · simp only [hplace]
    rfl
  · obtain ⟨hlt, -⟩ := List.findIdx?_eq_some_iff_getElem.mp hplace
    have hlt : place < d.active.toArray.size := hlt
    obtain ⟨g, hg⟩ := exists_entry hlt
    simp only [hplace] at herase ⊢
    simp only [entry_of_some hg, Checked.ok_bind, herase]
    rfl

end Drag

/-! ### Views -/

namespace View

/-- The view of a dataset before its first step. -/
def ofRecordsChecked (records : List Record) (viewport : Viewport F) (config : Config F) :
    Checked (View F) := do
  let graph ← Graph.ofRecordsChecked records
  let simulation ← Simulation.startChecked graph viewport config
  return ⟨simulation, viewport, config, .idle, .empty viewport⟩

/-- Lays out for another viewport. -/
def resizeChecked (v : View F) (viewport : Viewport F) : Checked (View F × Bool) :=
  if viewport == v.viewport then return (v, false)
  else do
    let released := v.graph.mapNodes ({ · with pin := none })
    let simulation ← Simulation.startChecked released viewport v.config
    return ({ v with
        simulation
        viewport
        drag := .idle
        scene := { v.scene with viewport } },
      true)

/-- One turn of the stepping loop. -/
def advanceChecked (v : View F) : Checked (View F × Bool) := do
  let (simulation, drawn) ←
    v.simulation.advanceChecked (Graph.tickChecked v.viewport v.config)
  return ({ v with simulation, scene := drawn.getD v.scene }, simulation.running)

/-- Advances until the simulation rests, at most the given number of times, on top of steps
that were taken before. -/
def settleFromChecked (taken : Nat) : (most : Nat) → View F → Checked (View F × Nat)
  | 0, v => return (v, taken)
  | most + 1, v =>
    if v.simulation.running then do
      let (v, _) ← v.advanceChecked
      settleFromChecked (taken + 1) most v
    else return (v, taken)

/-- An action, with what it answers. -/
def performChecked (v : View F) : Action F → Checked (View F × Answer)
  | .setDataset records => return (← ofRecordsChecked records v.viewport v.config, .done)
  | .resize viewport => do
    let (v, changed) ← v.resizeChecked viewport
    return (v, .flag changed)
  | .advance => do
    let (v, live) ← v.advanceChecked
    return (v, .flag live)
  | .settle most => do
    let (v, steps) ← settleFromChecked 0 most v
    return (v, .count steps)
  | .dragStart node pointer => do
    let (drag, simulation) ← v.drag.startChecked v.simulation node pointer
    return ({ v with drag, simulation }, .done)
  | .grab node pointer => do
    let (drag, simulation) ← v.drag.grabChecked v.simulation node pointer
    return ({ v with drag, simulation }, .done)
  | .dragMove node pointer => return (v.dragMove node pointer, .done)
  | .dragEnd node => do
    let (drag, simulation) ← v.drag.finishChecked v.simulation node
    return ({ v with drag, simulation }, .done)

/-- A view after a history of actions. -/
def runChecked (v : View F) (history : List (Action F)) : Checked (View F) :=
  history.foldlM (fun v action => do return (← v.performChecked action).1) v

variable {given : List Record} {stepped : Bool} {v : View F}

/-- All accesses of a coherent view are in range. -/
theorem Coherent.inRange (h : Coherent given stepped v) : v.simulation.InRange where
  closed := (Graph.closed_ofRecords given).of_shape h.shape
  springs := by
    rw [h.springs, Spring.ofLinks, Array.size_map]
    exact Nat.le_refl _

theorem ofRecordsChecked_eq (records : List Record) (viewport : Viewport F)
    (config : Config F) :
    ofRecordsChecked records viewport config = .ok (ofRecords records viewport config) := by
  rw [ofRecordsChecked, Graph.ofRecordsChecked_eq, Checked.ok_bind,
    Simulation.startChecked_eq (Graph.closed_ofRecords records)]
  rfl

theorem Coherent.resizeChecked_eq (h : Coherent given stepped v) (viewport : Viewport F) :
    v.resizeChecked viewport = .ok (v.resize viewport) := by
  rw [View.resizeChecked, View.resize]
  split
  · rfl
  · have hreleased : (v.graph.mapNodes ({ · with pin := none })).Closed :=
      h.inRange.closed.of_shape v.graph.shape_unpinned
    simp only [Simulation.startChecked_eq hreleased]
    rfl

theorem Coherent.advanceChecked_eq (h : Coherent given stepped v) :
    v.advanceChecked = .ok v.advance := by
  have htick := Graph.tickChecked_eq v.viewport v.config h.inRange.step.closed
  rw [View.advanceChecked, Simulation.advanceChecked_eq h.inRange htick]
  rfl

theorem Coherent.settleFromChecked_eq (h : Coherent given stepped v) (taken most : Nat) :
    settleFromChecked taken most v = .ok (settleFrom taken most v) := by
  induction most generalizing taken stepped v with
  | zero => rfl
  | succ most ih =>
    rw [settleFromChecked, settleFrom]
    split
    · rw [h.advanceChecked_eq, Checked.ok_bind]
      exact ih h.advance (taken + 1)
    · rfl

/-- Every action on a coherent view comes to its end. -/
theorem Coherent.performChecked_eq (h : Coherent given stepped v) (action : Action F) :
    v.performChecked action = .ok (v.perform action) := by
  cases action with
  | setDataset records =>
    rw [performChecked, ofRecordsChecked_eq]
    rfl
  | resize viewport =>
    rw [performChecked, h.resizeChecked_eq]
    rfl
  | advance =>
    rw [performChecked, h.advanceChecked_eq]
    rfl
  | settle most =>
    rw [performChecked, h.settleFromChecked_eq]
    rfl
  | dragStart node pointer =>
    rw [performChecked, Drag.startChecked, Drag.beginChecked_eq]
    rfl
  | grab node pointer =>
    rw [performChecked, Drag.grabChecked_eq]
    rfl
  | dragMove node pointer => rfl
  | dragEnd node =>
    rw [performChecked, Drag.finishChecked_eq]
    rfl

theorem Coherent.runChecked_eq (h : Coherent given stepped v) (history : List (Action F)) :
    v.runChecked history = .ok (v.run history) := by
  induction history generalizing given stepped v with
  | nil => rfl
  | cons action rest ih =>
    rw [runChecked, List.foldlM_cons, h.performChecked_eq]
    exact ih (h.perform action)

/-- **The layout never indexes out of range.**  With every access checked, a history of
actions on the view of a dataset comes to its end and gives the view that the history gives
without checks; the same holds of any number of steps and turns of a simulation whose graph
has been taken away, restarted or not, and of a look at the root of any tree of points. -/
theorem run_in_range (records : List Record) (viewport : Viewport F) (config : Config F)
    (history : List (Action F)) :
    ((ofRecordsChecked records viewport config).bind fun v => v.runChecked history) =
      .ok ((ofRecords records viewport config).run history) ∧
    (∀ (s : Simulation F) (n : Nat), ∀ s' ∈ [s.emptied, s.emptied.restart],
      s'.stepsChecked n = .ok (Simulation.step^[n] s') ∧
      ∀ (viewport : Viewport F) (config : Config F), s'.turnsChecked viewport config n =
        .ok ((fun s => (s.advance (Graph.tick viewport config)).1)^[n] s')) ∧
    ∀ (points : List (Vec F)) (t : Quadtree F), Quadtree.ofPoints? points = some t →
      ∃ cell, t.root? = some cell ∧ t.rootChecked = .ok cell := by
  refine ⟨?_, fun s n s' hs' => ?_, fun points t => Quadtree.rootChecked_eq⟩
  · -- the view of a dataset is coherent, and every action keeps it so
    rw [ofRecordsChecked_eq]
    exact (coherent_ofRecords records viewport config).runChecked_eq history
  · have hrange : s'.InRange := by
      have hempty := s.inRange_emptied
      rcases List.mem_pair.mp hs' with rfl | rfl
      · exact hempty
      · exact hempty.restart
    exact ⟨Simulation.stepsChecked_eq hrange n, fun viewport config =>
      Simulation.turnsChecked_eq hrange viewport config n⟩

end View

end ForceDiagram
