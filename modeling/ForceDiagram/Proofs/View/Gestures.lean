/-
ForceDiagram/Proofs/View/Gestures.lean

Who holds which node, through every history of a view.

`Action.holds` says, node by node, what an action changes about the holds: a
start or a grab on a node that exists and is free makes a hold, with no distance
or with the one there is at that moment; a move replaces the pointer of a hold
and keeps its distance; an end removes it; a new dataset or another viewport
removes all.  It looks neither at gestures nor at pins.  Every reachable view
has the gestures, the pins and the heat of the holds that its history makes
(`held_run`), and what is refused changes nothing at all.

In which order a view keeps its gestures is shown by nothing that it does later
(`Reordered.run`).
-/
import ForceDiagram.Proofs.Simulation.Gestures
import ForceDiagram.Proofs.View.Steps
import Mathlib.Data.List.Perm.Basic

namespace ForceDiagram

variable {F : Type} [Scalar F]

namespace View

/-! ### The holds that a history makes -/

/-- The holds after an action.  A hold that is there is not made anew. -/
def Action.holds (v : View F) (held : Nat → Option (Hold F)) :
    Action F → Nat → Option (Hold F)
  | .setDataset _ => fun _ => none
  | .resize viewport => if viewport == v.viewport then held else fun _ => none
  | .advance => held
  | .settle _ => held
  | .dragStart node pointer =>
    Function.update held node
      ((held node).or (v.graph.nodes[node]?.map fun _ => ⟨pointer, .zero⟩))
  | .grab node pointer =>
    Function.update held node
      ((held node).or (v.graph.nodes[node]?.map fun n => ⟨pointer, n.pos - pointer⟩))
  | .dragMove node pointer =>
    Function.update held node ((held node).map ({ · with pointer }))
  | .dragEnd node => Function.update held node none

/-- The holds after a history that begins with the given ones. -/
def holdsAfter (v : View F) (held : Nat → Option (Hold F)) :
    List (Action F) → Nat → Option (Hold F)
  | [] => held
  | action :: rest => (v.perform action).1.holdsAfter (action.holds v held) rest

/-! ### What is refused -/

variable {v : View F} {node : Nat} {pointer : Vec F}

theorem dragStart_of_refused (h : v.graph.nodes.size ≤ node ∨ v.drag.isDragging node = true) :
    v.dragStart node pointer = v := by
  rw [dragStart, Drag.start, Drag.begin_of_refused h]

theorem grab_of_refused (h : v.graph.nodes.size ≤ node ∨ v.drag.isDragging node = true) :
    v.grab node pointer = v := by
  rw [grab, Drag.grab_of_refused h]

theorem dragMove_of_not_dragging (h : v.drag.isDragging node = false) :
    v.dragMove node pointer = v := by
  rw [dragMove, Drag.move_of_not_dragging h]

theorem dragEnd_of_not_dragging (h : v.drag.isDragging node = false) : v.dragEnd node = v := by
  rw [dragEnd, Drag.finish_of_not_dragging h]

/-! ### Ends of gestures -/

/-- Gestures end in any order. -/
theorem dragEnd_comm (v : View F) (i j : Nat) :
    (v.dragEnd i).dragEnd j = (v.dragEnd j).dragEnd i := by
  have hcomm := v.drag.finish_comm v.simulation i j
  simp only [dragEnd]
  rw [hcomm]

theorem foldl_dragEnd_of_perm {nodes nodes' : List Nat} (h : nodes.Perm nodes') (v : View F) :
    nodes.foldl dragEnd v = nodes'.foldl dragEnd v := by
  have : RightCommutative (dragEnd : View F → Nat → View F) := ⟨dragEnd_comm⟩
  exact h.foldl_eq v

theorem run_map_dragEnd (v : View F) (nodes : List Nat) :
    v.run (nodes.map .dragEnd) = nodes.foldl dragEnd v := List.foldl_map

/-! ### Views and their holds -/

/-- The view has the gestures, the pins and the heat of the given holds. -/
structure Held (config : Config F) (held : Nat → Option (Hold F)) (v : View F) : Prop where
  holding : v.drag.Holding held v.simulation
  view_config : v.config = config
  simulation_config : v.simulation.config = config

variable {config : Config F} {held : Nat → Option (Hold F)}

/-- A view whose simulation has just been started holds nothing, if no node
came with a pin. -/
theorem held_of_start {g : Graph F} (hpins : ∀ n ∈ g.nodes, n.pin = none)
    (hsimulation : v.simulation = .start g v.viewport config) (hdrag : v.drag = .idle)
    (hconfig : v.config = config) : Held config (fun _ => none) v where
  holding := by
    rw [hdrag, hsimulation]
    refine ⟨List.nodup_nil, fun _ => rfl, fun i => ?_, rfl⟩
    simp only [Simulation.pin?, Simulation.start, Simulation.placedGraph, Array.getElem?_mapIdx]
    rcases hn : g.nodes[i]? with - | n
    · rfl
    · exact hpins n (Array.mem_of_getElem? hn)
  view_config := hconfig
  simulation_config := by
    rw [hsimulation]
    rfl

/-- Nodes of a dataset come without pins. -/
theorem held_ofRecords (records : List Record) (viewport : Viewport F) (config : Config F) :
    Held config (fun _ => none) (ofRecords records viewport config) := by
  refine held_of_start ?_ rfl rfl rfl
  intro n hn
  obtain ⟨name, -, rfl⟩ := List.mem_map.mp (List.mem_toArray.mp hn)
  rfl

/-! ### Actions and holds -/

theorem Held.advance (h : Held config held v) : Held config held v.advance.1 := by
  obtain ⟨-, hconfig, htarget, -, -⟩ := advance_simulation_frame v
  have hpins : v.advance.1.simulation.pin? = v.simulation.pin? :=
    Simulation.pin?_eq_of_map (map_nodes_advance (fun _ _ _ => rfl) v)
  refine ⟨⟨h.holding.distinct, h.holding.gestures, fun i => ?_, ?_⟩, h.view_config,
    hconfig.trans h.simulation_config⟩
  · rw [hpins]
    exact h.holding.pins i
  · rw [htarget, hconfig]
    exact h.holding.target

theorem Held.resize (h : Held config held v) (viewport : Viewport F) :
    Held config ((Action.resize viewport).holds v held) (v.resize viewport).1 := by
  rcases heq : viewport == v.viewport with - | -
  · rw [resize_of_ne heq, Action.holds, if_neg (by simp [heq])]
    have hstart := congrArg (Simulation.start v.graph.unpinned viewport) h.view_config
    exact held_of_start (fun _ => Graph.pin_of_mem_unpinned) hstart rfl h.view_config
  · rw [resize_of_eq heq, Action.holds, if_pos heq]
    exact h

/-- Where nothing changes at a node that is named, nothing changes. -/
theorem Held.keep (h : Held config held v) {hold : Option (Hold F)} (hhold : held node = hold) :
    Held config (Function.update held node hold) v := by
  rw [← hhold, Function.update_eq_self]
  exact h

/-- A gesture begins on a node that is there and free. -/
theorem Held.begin (h : Held config held v) {n : Node F} (hnode : v.graph.nodes[node]? = some n)
    (hfree : held node = none) (pointer offset : Vec F) :
    Held config (Function.update held node (some ⟨pointer, offset⟩))
      { v with
        drag := (v.drag.begin v.simulation node pointer offset).1
        simulation := (v.drag.begin v.simulation node pointer offset).2 } where
  holding := h.holding.begin (Array.getElem?_eq_some_iff.mp hnode).1 hfree pointer offset
  view_config := h.view_config
  simulation_config := (Drag.gestured_begin ..).config.trans h.simulation_config

theorem Held.dragStart (h : Held config held v) (node : Nat) (pointer : Vec F) :
    Held config ((Action.dragStart node pointer).holds v held) (v.dragStart node pointer) := by
  rw [Action.holds]
  rcases hheld : held node with - | hold
  · rw [Option.none_or]
    rcases hnode : v.graph.nodes[node]? with - | n
    · rw [dragStart_of_refused (.inl (Array.getElem?_eq_none_iff.mp hnode))]
      exact h.keep hheld
    · exact h.begin hnode hheld pointer .zero
  · -- a node that is held is not started on again
    rw [dragStart_of_refused (.inr (by simp [h.holding.isDragging_eq, hheld])), Option.some_or]
    exact h.keep hheld

theorem Held.grab (h : Held config held v) (node : Nat) (pointer : Vec F) :
    Held config ((Action.grab node pointer).holds v held) (v.grab node pointer) := by
  rw [Action.holds]
  rcases hheld : held node with - | hold
  · rw [Option.none_or]
    rcases hnode : v.graph.nodes[node]? with - | n
    · rw [grab_of_refused (.inl (Array.getElem?_eq_none_iff.mp hnode))]
      exact h.keep hheld
    · have hgrab : v.drag.grab v.simulation node pointer =
          v.drag.begin v.simulation node pointer (n.pos - pointer) := by
        have hnode : v.simulation.graph.nodes[node]? = some n := hnode
        rw [Drag.grab, hnode]
      rw [View.grab, hgrab]
      exact h.begin hnode hheld pointer (n.pos - pointer)
  · rw [grab_of_refused (.inr (by simp [h.holding.isDragging_eq, hheld])), Option.some_or]
    exact h.keep hheld

theorem Held.dragMove (h : Held config held v) (node : Nat) (pointer : Vec F) :
    Held config ((Action.dragMove node pointer).holds v held) (v.dragMove node pointer) := by
  rw [Action.holds]
  rcases hheld : held node with - | hold
  · rw [dragMove_of_not_dragging (by simp [h.holding.isDragging_eq, hheld])]
    exact h.keep hheld
  · exact ⟨h.holding.move hheld pointer, h.view_config,
      (Drag.gestured_move ..).config.trans h.simulation_config⟩

theorem Held.dragEnd (h : Held config held v) (node : Nat) :
    Held config ((Action.dragEnd node).holds v held) (v.dragEnd node) := by
  rw [Action.holds]
  rcases hheld : held node with - | hold
  · rw [dragEnd_of_not_dragging (by simp [h.holding.isDragging_eq, hheld])]
    exact h.keep hheld
  · exact ⟨h.holding.finish hheld, h.view_config,
      (Drag.gestured_finish ..).config.trans h.simulation_config⟩

/-- Every action makes of a view with the given holds one with the holds after it. -/
theorem Held.perform (h : Held config held v) (action : Action F) :
    Held config (action.holds v held) (v.perform action).1 := by
  cases action with
  | setDataset records =>
    have hheld : Held v.config (fun _ => none) (v.setDataset records) :=
      held_ofRecords records v.viewport v.config
    rw [h.view_config] at hheld
    exact hheld
  | resize viewport => exact h.resize viewport
  | advance => exact h.advance
  | settle most => exact settle_induction (fun _ => Held.advance) h most
  | dragStart node pointer => exact h.dragStart node pointer
  | grab node pointer => exact h.grab node pointer
  | dragMove node pointer => exact h.dragMove node pointer
  | dragEnd node => exact h.dragEnd node

theorem Held.run (h : Held config held v) (history : List (Action F)) :
    Held config (v.holdsAfter held history) (v.run history) := by
  induction history generalizing held v with
  | nil => exact h
  | cons action rest ih => exact ih (h.perform action)

/-! ### The order of gestures -/

/-- The views are the same but for the order in which they keep their gestures. -/
structure Reordered (v v' : View F) : Prop where
  gestures : v.drag.active.Perm v'.drag.active
  others : v' = { v with drag := v'.drag }

omit [Scalar F] in
theorem Reordered.refl (v : View F) : v.Reordered v := ⟨.refl _, rfl⟩

theorem settleFrom_drag (most taken : Nat) (v : View F) (d : Drag F) :
    settleFrom taken most { v with drag := d } =
      ({ (settleFrom taken most v).1 with drag := d }, (settleFrom taken most v).2) ∧
      (settleFrom taken most v).1.drag = v.drag := by
  induction most generalizing taken v with
  | zero => exact ⟨rfl, rfl⟩
  | succ most ih =>
    rw [settleFrom, settleFrom]
    rcases v.simulation.running with - | -
    · exact ⟨rfl, rfl⟩
    · exact ih (taken + 1) v.advance.1

/-- An action answers the same in whichever order the gestures are, and leaves them in some
order. -/
theorem Reordered.perform {v v' : View F} (h : v.Reordered v')
    (hdistinct : (v.drag.active.map (·.node)).Nodup) (action : Action F) :
    (v.perform action).2 = (v'.perform action).2 ∧
      (v.perform action).1.Reordered (v'.perform action).1 := by
  obtain ⟨hperm, hothers⟩ := h
  generalize v'.drag = d at hperm hothers
  subst hothers
  -- of a drag the new gestures are in some order, and the new simulation is the same
  have hdragged : ∀ {dragged dragged' : Drag F × Simulation F},
      dragged.1.active.Perm dragged'.1.active ∧ dragged.2 = dragged'.2 →
        Reordered { v with drag := dragged.1, simulation := dragged.2 }
          { v with drag := dragged'.1, simulation := dragged'.2 } := by
    rintro ⟨e, s⟩ ⟨e', s'⟩ ⟨hgestures, rfl⟩
    exact ⟨hgestures, rfl⟩
  cases action with
  | setDataset records => exact ⟨rfl, .refl _⟩
  | resize viewport =>
    simp only [View.perform, resize]
    split
    · exact ⟨rfl, hperm, rfl⟩
    · exact ⟨rfl, .refl _⟩
  | advance => exact ⟨rfl, hperm, rfl⟩
  | settle most =>
    obtain ⟨hsettled, hdrag⟩ := settleFrom_drag most 0 v d
    simp only [View.perform, settle, hsettled]
    exact ⟨trivial, hdrag ▸ hperm, rfl⟩
  | dragStart node pointer =>
    exact ⟨rfl, hdragged (Drag.begin_of_perm hperm hdistinct v.simulation node pointer .zero)⟩
  | grab node pointer =>
    exact ⟨rfl, hdragged (Drag.grab_of_perm hperm hdistinct v.simulation node pointer)⟩
  | dragMove node pointer =>
    exact ⟨rfl, @hdragged (v.drag, v.drag.move v.simulation node pointer) (d, _)
      ⟨hperm, Drag.move_of_perm hperm hdistinct v.simulation node pointer⟩⟩
  | dragEnd node =>
    exact ⟨rfl, hdragged (Drag.finish_of_perm hperm hdistinct v.simulation node)⟩

/-- **The order of gestures is never seen.**  After the same history views are the same but for
the order of their gestures if they were so before it. -/
theorem Reordered.run {v v' : View F} (h : v.Reordered v') (hheld : Held config held v)
    (history : List (Action F)) : (v.run history).Reordered (v'.run history) := by
  induction history generalizing held v v' with
  | nil => exact h
  | cons action rest ih =>
    exact ih (h.perform hheld.holding.distinct action).2 (hheld.perform action)

/-! ### What holds of views that hold nodes -/

theorem Held.isSome_pin_iff (h : Held config held v) {i : Nat} {n : Node F}
    (hn : v.graph.nodes[i]? = some n) : n.pin.isSome ↔ v.drag.isDragging i = true := by
  have hpin : v.simulation.pin? i = n.pin := by
    have hn : v.simulation.graph.nodes[i]? = some n := hn
    rw [Simulation.pin?, hn, Option.bind_some]
  rw [h.holding.isDragging_eq, ← hpin, h.holding.pins, Option.isSome_map]

theorem Held.lt_size (h : Held config held v) {i : Nat} (hi : v.drag.isDragging i = true) :
    i < v.graph.nodes.size :=
  h.holding.lt_size (by rwa [h.holding.isDragging_eq] at hi)

theorem Held.not_isDragging (h : Held config held v) {i : Nat} (hi : v.graph.nodes.size ≤ i) :
    v.drag.isDragging i = false := by
  by_contra hdragging
  have hlt := h.lt_size (Bool.eq_true_of_not_eq_false hdragging)
  omega

/-- The end of one of several gestures changes its own pin and gesture only. -/
theorem dragEnd_of_several {i j : Nat} (hne : j ≠ i) (hi : v.drag.isDragging i = true)
    (hj : v.drag.isDragging j = true) :
    v.dragEnd i =
      { v with drag := v.drag.without i, simulation := v.simulation.setPin i none } := by
  rw [dragEnd, Drag.finish_of_several hne hi hj]

/-- **Gestures, pins and heat agree in every view that can be reached.**  The
gestures are on distinct nodes of the graph, and they are those of the holds the
history has made; a node has a pin just if it is dragged, at its pointer plus the
distance kept; and the heat goes to the target of dragging as long as there is a
gesture.  What is refused changes nothing.  The end of one of several gestures
takes that gesture and its pin away and leaves all else, and the order of ends
makes no difference, in whichever order the gestures are kept. -/
theorem held_run (records : List Record) (viewport : Viewport F) (config : Config F)
    (history : List (Action F)) :
    let v₀ : View F := ofRecords records viewport config
    let v := v₀.run history
    let held := v₀.holdsAfter (fun _ => none) history
    ((v.drag.active.map (·.node)).Nodup ∧
      (∀ g ∈ v.drag.active, g.node < v.graph.nodes.size) ∧
      (∀ i, v.drag.gesture? i = (held i).map fun h => ⟨i, h.offset⟩) ∧
      (∀ i n, v.graph.nodes[i]? = some n →
        (n.pin.isSome ↔ v.drag.isDragging i = true) ∧
        n.pin = (held i).map fun h => h.pointer + h.offset) ∧
      v.simulation.alphaTarget = if v.drag.active = [] then 0 else config.dragAlphaTarget) ∧
    (∀ node pointer,
      (v.graph.nodes.size ≤ node → v.dragStart node pointer = v ∧ v.grab node pointer = v ∧
        v.dragMove node pointer = v ∧ v.dragEnd node = v) ∧
      (v.drag.isDragging node = true → v.dragStart node pointer = v ∧ v.grab node pointer = v) ∧
      (v.drag.isDragging node = false → v.dragMove node pointer = v ∧ v.dragEnd node = v)) ∧
    (∀ i j, j ≠ i → v.drag.isDragging i = true → v.drag.isDragging j = true →
      v.dragEnd i =
        { v with drag := v.drag.without i, simulation := v.simulation.setPin i none } ∧
      (v.dragEnd i).drag.gesture? j = v.drag.gesture? j ∧
      (v.dragEnd i).graph.nodes[j]? = v.graph.nodes[j]?) ∧
    ∀ nodes nodes' : List Nat, nodes.Perm nodes' →
      nodes.foldl dragEnd v = nodes'.foldl dragEnd v ∧
      ∀ v', v.Reordered v' → (nodes.foldl dragEnd v).Reordered (nodes'.foldl dragEnd v') := by
  intro v₀ v held
  have h : Held config held v := (held_ofRecords records viewport config).run history
  refine ⟨⟨h.holding.distinct, ?_, h.holding.gestures, ?_, ?_⟩, ?_, ?_, ?_⟩
  · intro g hg
    apply h.lt_size
    rw [Drag.isDragging, Drag.gesture?, List.find?_isSome]
    exact ⟨g, hg, beq_self_eq_true _⟩
  · intro i n hn
    refine ⟨h.isSome_pin_iff hn, ?_⟩
    have hpin := h.holding.pins i
    have hn : v.simulation.graph.nodes[i]? = some n := hn
    rwa [Simulation.pin?, hn, Option.bind_some] at hpin
  · rw [h.holding.target, h.simulation_config]
    simp only [Drag.isIdle, List.isEmpty_iff]
  · intro node pointer
    refine ⟨fun hout => ?_, fun hdragging => ?_, fun hfree => ?_⟩
    · have hfree := h.not_isDragging hout
      exact ⟨dragStart_of_refused (.inl hout), grab_of_refused (.inl hout),
        dragMove_of_not_dragging hfree, dragEnd_of_not_dragging hfree⟩
    · exact ⟨dragStart_of_refused (.inr hdragging), grab_of_refused (.inr hdragging)⟩
    · exact ⟨dragMove_of_not_dragging hfree, dragEnd_of_not_dragging hfree⟩
  · intro i j hne hi hj
    rw [dragEnd_of_several hne hi hj]
    refine ⟨rfl, Drag.gesture?_without_of_ne v.drag hne, ?_⟩
    show (v.simulation.graph.nodes.modify i _)[j]? = v.simulation.graph.nodes[j]?
    rw [Array.getElem?_modify, if_neg hne.symm]
  · intro nodes nodes' hperm
    refine ⟨foldl_dragEnd_of_perm hperm v, fun v' hv' => ?_⟩
    have hends := hv'.run h (nodes.map .dragEnd)
    rw [run_map_dragEnd, run_map_dragEnd] at hends
    exact foldl_dragEnd_of_perm hperm v' ▸ hends

end View

end ForceDiagram
