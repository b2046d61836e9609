/-
ForceDiagram/Proofs/View/Pinned.lean

A held node stays under its pointer, and the loop stays awake for it.

In one step four forces and the centering act on every node, but a node with a pin then
goes to the pin and comes to rest, whatever they did, and the tick that follows moves it
no further than into the viewport (`atPin_advance`).  So after every advance that takes
a step, on its own or within a settling, each held node is where its pointer and its
distance put it.

Whether the loop runs is a matter of history: only the first of several gestures wakes
it, and only an advance that has cooled down puts it to rest.  `advancesSince` collects
the advances made since no gesture was under way, and `Awake` says that the loop runs or
one of these has ended below the least heat.  Every action keeps it (`Awake.perform`).

Main result: `pinned_run`.
-/
import ForceDiagram.Proofs.View.Gestures

namespace ForceDiagram

variable {F : Type} [Scalar F]

/-! ### Steps -/

namespace Simulation

variable {s : Simulation F} {i : Nat} {pin : Vec F}

theorem map_pin_bodies_centered (s : Simulation F) :
    (centered s.viewport.center (s.pushedBodies s.cooled).nodes).map (·.pin) =
      s.graph.nodes.map (·.pin) := by
  have hrest : ∀ n : Node F, n.atRest.pin = n.pin := fun _ => rfl
  calc (centered s.viewport.center (s.pushedBodies s.cooled).nodes).map (·.pin)
      = (s.pushedBodies s.cooled).nodes.map (·.pin) := map_centered (fun _ _ => rfl) _ _
    _ = (s.pushedBodies s.cooled).places.map (·.pin) := (map_map_of_eq hrest _).symm
    _ = s.graph.nodes.map (·.pin) := by rw [places_pushedBodies, map_map_of_eq hrest]

/-- A step takes a held node to its pin, whatever the forces do. -/
theorem exists_node_step_of_pin (h : s.pin? i = some pin) :
    ∃ n, s.step.graph.nodes[i]? = some n ∧
      n.pin = some pin ∧ n.pos = pin ∧ n.velocity = .zero := by
  obtain ⟨m, hm, hpin⟩ := Option.bind_eq_some_iff.mp h
  -- the forces and the centering leave the node its pin
  have hkept : ((centered s.viewport.center (s.pushedBodies s.cooled).nodes).map (·.pin))[i]? =
      some (some pin) := by
    rw [map_pin_bodies_centered, Array.getElem?_map, hm, Option.map_some, hpin]
  rw [Array.getElem?_map, Option.map_eq_some_iff] at hkept
  obtain ⟨n, hn, hnpin⟩ := hkept
  have hmoved : ∀ retain, moved retain n = { n with pos := pin, velocity := .zero } := by
    intro retain
    rw [moved, hnpin]
  refine ⟨moved (1 - s.config.velocityDecay) n, ?_, ?_, ?_, ?_⟩
  · show ((centered s.viewport.center (s.pushedBodies s.cooled).nodes).map _)[i]? = _
    rw [Array.getElem?_map, hn, Option.map_some]
  · rw [hmoved]
    exact hnpin
  · rw [hmoved]
  · rw [hmoved]

end Simulation

/-! ### Gestures -/

namespace Drag

variable {d : Drag F} (s : Simulation F) (node : Nat) (pointer offset : Vec F)

/-- The first gesture that begins wakes the loop. -/
theorem running_begin (hidle : d.isIdle = true)
    (hbegun : (d.begin s node pointer offset).1.isIdle = false) :
    (d.begin s node pointer offset).2.running = true := by
  by_cases hrefused : s.graph.nodes.size ≤ node ∨ d.isDragging node = true
  · rw [begin_of_refused hrefused, hidle] at hbegun
    cases hbegun
  · obtain ⟨hnode, hfree⟩ := not_or.mp hrefused
    have hfree := isDragging_eq_false_iff.mp (Bool.eq_false_of_not_eq_true hfree)
    rw [begin_of_free (Nat.not_le.mp hnode) hfree, heated, if_pos hidle]
    rfl

theorem running_grab (hidle : d.isIdle = true)
    (hbegun : (d.grab s node pointer).1.isIdle = false) :
    (d.grab s node pointer).2.running = true := by
  unfold grab at hbegun ⊢
  split
  · next n hn =>
    rw [hn] at hbegun
    exact running_begin s node pointer _ hidle hbegun
  · next hn =>
    rw [hn, hidle] at hbegun
    cases hbegun

omit [Scalar F] in
/-- A gesture under way is the one found at its node. -/
theorem gesture?_of_mem (h : (d.active.map (·.node)).Nodup) {g : Gesture F}
    (hg : g ∈ d.active) : d.gesture? g.node = some g := by
  obtain ⟨active⟩ := d
  induction active with
  | nil => cases hg
  | cons g' rest ih =>
    obtain ⟨hg', hrest⟩ := List.nodup_cons.mp h
    rw [gesture?_cons g' ⟨rest⟩]
    rcases List.mem_cons.mp hg with rfl | hg
    · exact Function.update_self ..
    · have hne : g.node ≠ g'.node := fun heq => hg' (List.mem_map.mpr ⟨g, hg, heq⟩)
      rw [Function.update_of_ne hne]
      exact ih hrest hg

/-- A gesture under way is one of the holds, and the node is pinned as it is held. -/
theorem Holding.of_mem {held : Nat → Option (Hold F)} {s : Simulation F}
    (h : Holding held d s) {g : Gesture F} (hg : g ∈ d.active) :
    ∃ hold, held g.node = some hold ∧ hold.offset = g.offset ∧
      s.pin? g.node = some hold.pin := by
  have hgesture := h.gestures g.node
  rw [gesture?_of_mem h.distinct hg, eq_comm, Option.map_eq_some_iff] at hgesture
  obtain ⟨hold, hhold, heq⟩ := hgesture
  refine ⟨hold, hhold, congrArg Gesture.offset heq, ?_⟩
  rw [h.pins, hhold, Option.map_some]

/-- No gesture begins by the end of one. -/
theorem isIdle_finish (hidle : d.isIdle = true) : (d.finish s node).1.isIdle = true := by
  have hfree : d.isDragging node = false := by
    rcases hdragging : d.isDragging node with - | -
    · rfl
    · rw [isIdle_of_isDragging hdragging] at hidle
      cases hidle
  rw [finish_of_not_dragging hfree]
  exact hidle

end Drag

namespace View

variable {v : View F} {i most : Nat} {pin : Vec F}

/-- The point moved into the viewport, coordinate by coordinate. -/
def kept (v : View F) (p : Vec F) : Vec F :=
  ⟨clampAxis p.x v.viewport.width v.config.forcePadding,
    clampAxis p.y v.viewport.height v.config.forcePadding⟩

/-- The node is at rest where it is pinned, in the graph and in the scene alike. -/
def AtPin (v : View F) (i : Nat) (pin : Vec F) : Prop :=
  ∃ n : Node F, v.graph.nodes[i]? = some n ∧ n.pin = some pin ∧ n.velocity = .zero ∧
    n.pos = v.kept pin ∧ v.scene.nodes[i]? = some ⟨n.name, v.kept pin⟩

/-- An advance that takes a step leaves every held node at its pin. -/
theorem atPin_advance (hrun : v.simulation.running = true) (h : v.simulation.pin? i = some pin) :
    v.advance.1.AtPin i pin := by
  obtain ⟨n, hn, hpin, hpos, hvelocity⟩ := Simulation.exists_node_step_of_pin h
  have hnode : v.next.1.nodes[i]? =
      some (Graph.clamped v.viewport v.config.forcePadding n) := by
    show (v.simulation.step.graph.nodes.map _)[i]? = _
    rw [Array.getElem?_map, hn, Option.map_some]
  have hkept : v.advance.1.kept pin =
      (Graph.clamped v.viewport v.config.forcePadding n).pos := by
    rw [advance_of_running hrun, Graph.clamped, hpos]
    rfl
  refine ⟨Graph.clamped v.viewport v.config.forcePadding n, ?_, hpin, hvelocity, hkept.symm, ?_⟩
  · rw [graph_advance_of_running hrun]
    exact hnode
  · rw [hkept, advance_of_running hrun]
    show (v.next.1.nodes.toList.map Graph.nodeShape)[i]? = _
    rw [List.getElem?_map, Array.getElem?_toList, hnode]
    rfl

/-- An advance leaves every node its pin. -/
theorem pin?_advance (h : v.simulation.pin? i = some pin) :
    v.advance.1.simulation.pin? i = some pin := by
  rw [Simulation.pin?_eq_of_map (map_nodes_advance (fun _ _ _ => rfl) v)]
  exact h

/-! ### Settling, advance by advance -/

/-- The views from which settling advances. -/
def turns : (most : Nat) → View F → List (View F)
  | 0, _ => []
  | most + 1, v => if v.simulation.running then v :: turns most v.advance.1 else []

/-- Settling is made of its advances. -/
theorem settleFrom_eq_turns (taken most : Nat) (v : View F) :
    settleFrom taken most v =
      ((v.turns most).getLast?.elim v (·.advance.1), taken + (v.turns most).length) := by
  induction most generalizing taken v with
  | zero => rfl
  | succ most ih =>
    rw [settleFrom, turns]
    split
    · rw [ih, List.getLast?_cons, List.length_cons]
      refine Prod.ext ?_ (by simp only; omega)
      rcases (turns most v.advance.1).getLast? with - | u <;> rfl
    · rfl

theorem settle_eq_turns (most : Nat) (v : View F) :
    v.settle most = ((v.turns most).getLast?.elim v (·.advance.1), (v.turns most).length) := by
  rw [settle, settleFrom_eq_turns, Nat.zero_add]

/-- What every advance keeps holds at every advance of a settling. -/
theorem turns_induction {P : View F → Prop} (hadvance : ∀ v, P v → P v.advance.1) (hv : P v) :
    ∀ u ∈ v.turns most, u.simulation.running = true ∧ P u := by
  induction most generalizing v with
  | zero => intro u hu; cases hu
  | succ most ih =>
    intro u hu
    rw [turns] at hu
    split at hu
    · next hrun =>
      rcases List.mem_cons.mp hu with rfl | hu
      · exact ⟨hrun, hv⟩
      · exact ih (hadvance v hv) u hu
    · cases hu

/-! ### Advances since the last idle moment -/

/-- The views from which an action advances. -/
def Action.advances (v : View F) : Action F → List (View F)
  | .advance => [v]
  | .settle most => v.turns most
  | _ => []

/-- The views from which advances have been made since no gesture was under way, after a
history that begins with the given ones made. -/
def advancesSince (v : View F) (made : List (View F)) : List (Action F) → List (View F)
  | [] => made
  | action :: rest =>
    let after := (v.perform action).1
    after.advancesSince (if after.drag.isIdle then [] else made ++ action.advances v) rest

/-- The advance that begins with this view takes a step and ends below the least heat. -/
def EndsCold (config : Config F) (v : View F) : Prop :=
  v.simulation.running = true ∧ v.advance.1.simulation.alpha < config.alphaMin

/-- While a gesture is under way, the loop runs or one of the advances made has cooled
down, all of them on the way to the heat of dragging. -/
def Awake (config : Config F) (made : List (View F)) (v : View F) : Prop :=
  v.drag.isIdle = false →
    (∀ u ∈ made, u.simulation.alphaTarget = config.dragAlphaTarget) ∧
      (v.simulation.running = true ∨ ∃ u ∈ made, EndsCold config u)

variable {config : Config F} {made : List (View F)} {held : Nat → Option (Hold F)}

theorem Held.alphaTarget_of_busy (h : Held config held v) (hbusy : v.drag.isIdle = false) :
    v.simulation.alphaTarget = config.dragAlphaTarget := by
  rw [h.holding.target, hbusy, h.simulation_config]
  rfl

theorem drag_advance (v : View F) : v.advance.1.drag = v.drag := by
  rcases hrun : v.simulation.running with - | -
  · rw [advance_of_resting hrun]
  · rw [advance_of_running hrun]

/-- An advance ends with the loop running, or cold. -/
theorem running_advance (h : v.simulation.running = true)
    (hconfig : v.simulation.config = config) :
    v.advance.1.simulation.running = true ∨ EndsCold config v := by
  have halpha : v.advance.1.simulation.alpha = v.simulation.step.alpha := by
    rw [advance_of_running h]
    unfold Simulation.rested
    split <;> rfl
  by_cases hcold : v.simulation.step.alpha < config.alphaMin
  · refine .inr ⟨h, ?_⟩
    rw [halpha]
    exact hcold
  · left
    have hrested : ¬ v.simulation.step.alpha < v.simulation.step.config.alphaMin := by
      show ¬ v.simulation.step.alpha < v.simulation.config.alphaMin
      rw [hconfig]
      exact hcold
    rw [advance_of_running h, Simulation.rested, if_neg hrested]
    exact h

theorem Awake.advance (h : Awake config made v) (hheld : Held config held v) :
    Awake config (made ++ [v]) v.advance.1 := by
  intro hbusy
  rw [drag_advance] at hbusy
  obtain ⟨htarget, hawake⟩ := h hbusy
  refine ⟨?_, ?_⟩
  · intro u hu
    rcases List.mem_append.mp hu with hu | hu
    · exact htarget u hu
    · obtain rfl := List.mem_singleton.mp hu
      exact hheld.alphaTarget_of_busy hbusy
  · have hmade : (∃ u ∈ made, EndsCold config u) → ∃ u ∈ made ++ [v], EndsCold config u :=
      fun ⟨u, hu, hcold⟩ => ⟨u, List.mem_append_left _ hu, hcold⟩
    rcases hrun : v.simulation.running with - | -
    · rw [advance_of_resting hrun]
      exact hawake.imp_right hmade
    · refine (running_advance hrun hheld.simulation_config).imp_right fun hcold => ?_
      exact ⟨v, List.mem_append_right _ (List.mem_singleton_self v), hcold⟩

theorem Awake.turns (h : Awake config made v) (hheld : Held config held v) (most : Nat) :
    Awake config (made ++ v.turns most) (v.settle most).1 := by
  induction most generalizing made v with
  | zero =>
    rw [View.turns, List.append_nil]
    exact h
  | succ most ih =>
    rcases hrun : v.simulation.running with - | -
    · rw [View.turns, hrun, settle_of_resting hrun]
      simpa using h
    · have hnext := ih (h.advance hheld) hheld.advance
      rw [View.turns, if_pos hrun, settle_succ_of_running hrun]
      rwa [List.append_assoc, List.singleton_append] at hnext

/-- A gesture keeps the loop awake if the first one wakes it. -/
theorem Awake.gesture (h : Awake config made v) {s : Simulation F} {drag : Drag F}
    (hs : Simulation.Gestured v.simulation s)
    (hfirst : v.drag.isIdle = true → drag.isIdle = false → s.running = true)
    (hnone : v.drag.isIdle = true → made = []) :
    Awake config made { v with drag, simulation := s } := by
  intro hbusy
  rcases hidle : v.drag.isIdle with - | -
  · obtain ⟨htarget, hawake⟩ := h hidle
    exact ⟨htarget, hawake.imp_left hs.running⟩
  · rw [hnone hidle]
    exact ⟨fun u hu => absurd hu List.not_mem_nil, .inl (hfirst hidle hbusy)⟩

/-- Every action keeps the loop awake. -/
theorem Awake.perform (h : Awake config made v) (hheld : Held config held v)
    (hnone : v.drag.isIdle = true → made = []) (action : Action F) :
    Awake config (made ++ action.advances v) (v.perform action).1 := by
  -- a gesture makes no advance
  have hsame : ∀ {w : View F}, Awake config made w → Awake config (made ++ []) w := by
    intro w hw
    rwa [List.append_nil]
  cases action with
  | setDataset records =>
    -- a new view is idle
    intro hbusy
    cases hbusy
  | resize viewport =>
    rcases heq : viewport == v.viewport with - | -
    · intro hbusy
      rw [View.perform, resize_of_ne heq] at hbusy
      cases hbusy
    · rw [View.perform, resize_of_eq heq]
      exact hsame h
  | advance => exact h.advance hheld
  | settle most => exact h.turns hheld most
  | dragStart node pointer =>
    exact hsame (h.gesture (v.drag.gestured_start _ node pointer)
      (Drag.running_begin _ node pointer .zero) hnone)
  | grab node pointer =>
    exact hsame (h.gesture (v.drag.gestured_grab _ node pointer)
      (Drag.running_grab _ node pointer) hnone)
  | dragMove node pointer =>
    refine hsame (h.gesture (v.drag.gestured_move _ node pointer) (fun hidle hbusy => ?_) hnone)
    rw [hidle] at hbusy
    cases hbusy
  | dragEnd node =>
    have hfirst : v.drag.isIdle = true → (v.drag.finish v.simulation node).1.isIdle = false →
        (v.drag.finish v.simulation node).2.running = true := by
      intro hidle hbusy
      rw [Drag.isIdle_finish v.simulation node hidle] at hbusy
      cases hbusy
    exact hsame (h.gesture (v.drag.gestured_finish v.simulation node) hfirst hnone)

theorem Awake.run (h : Awake config made v) (hheld : Held config held v)
    (hnone : v.drag.isIdle = true → made = []) (history : List (Action F)) :
    Awake config (v.advancesSince made history) (v.run history) := by
  induction history generalizing made held v with
  | nil => exact h
  | cons action rest ih =>
    have hafter := h.perform hheld hnone action
    have hsince : Awake config
        (if (v.perform action).1.drag.isIdle then [] else made ++ action.advances v)
        (v.perform action).1 := by
      intro hbusy
      rw [if_neg (by simp [hbusy])]
      exact hafter hbusy
    exact ih hsince (hheld.perform action) fun hidle => if_pos hidle

/-! ### Runs -/

/-- **A held node stays under its pointer.**  Directly after every advance that takes a
step, alone or within a settling, each node with a gesture on it is at rest at its pin,
the pointer last given for it plus the distance kept, moved into the viewport coordinate
by coordinate, in the graph and in the scene.  While a gesture is under way the loop
runs, unless one of the advances made since none was, all of them towards the heat of
dragging, has ended below the least heat. -/
theorem pinned_run (records : List Record) (viewport : Viewport F) (config : Config F)
    (history : List (Action F)) :
    let v₀ : View F := ofRecords records viewport config
    let v := v₀.run history
    let held := v₀.holdsAfter (fun _ => none) history
    let made := v₀.advancesSince [] history
    (∀ g ∈ v.drag.active, ∃ hold, held g.node = some hold ∧ hold.offset = g.offset ∧
      (v.simulation.running = true →
        v.advance.1.AtPin g.node (hold.pointer + hold.offset)) ∧
      ∀ most, (∀ u ∈ v.turns most, u.simulation.running = true ∧
          u.advance.1.AtPin g.node (hold.pointer + hold.offset)) ∧
        (0 < (v.settle most).2 →
          (v.settle most).1.AtPin g.node (hold.pointer + hold.offset))) ∧
    (v.isDragging = true →
      (∀ u ∈ made, u.simulation.alphaTarget = config.dragAlphaTarget) ∧
      (v.simulation.running = true ∨ ∃ u ∈ made, u.simulation.running = true ∧
        u.advance.1.simulation.alpha < config.alphaMin)) := by
  intro v₀ v held made
  have hstart : Held config (fun _ => none) v₀ := held_ofRecords records viewport config
  have hheld : Held config held v := hstart.run history
  refine ⟨?_, ?_⟩
  · intro g hg
    obtain ⟨hold, hhold, hoffset, hpin⟩ := hheld.holding.of_mem hg
    -- an advance leaves the pin, so the next one finds it again
    have hturns : ∀ most, ∀ u ∈ v.turns most, u.simulation.running = true ∧
        u.advance.1.AtPin g.node hold.pin := by
      intro most u hu
      let Pinned (u : View F) : Prop := u.simulation.pin? g.node = some hold.pin
      have hpinned : ∀ u, Pinned u → Pinned u.advance.1 := fun _ => pin?_advance
      obtain ⟨hrun, hu⟩ := turns_induction hpinned hpin u hu
      exact ⟨hrun, atPin_advance hrun hu⟩
    refine ⟨hold, hhold, hoffset, fun hrun => atPin_advance hrun hpin, fun most => ?_⟩
    refine ⟨hturns most, fun htaken => ?_⟩
    rw [settle_eq_turns] at htaken ⊢
    rcases hlast : (v.turns most).getLast? with - | u
    · rw [List.getLast?_eq_none_iff.mp hlast] at htaken
      cases htaken
    · exact (hturns most u (List.mem_of_getLast? hlast)).2
  · intro hdragging
    have hawake : Awake config made v := by
      refine Awake.run (fun hbusy => ?_) hstart (fun _ => rfl) history
      cases hbusy
    exact hawake (by simpa [isDragging] using hdragging)

end View

end ForceDiagram
