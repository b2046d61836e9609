/-
ForceDiagram/Proofs/Simulation/Gestures.lean

What gestures hold, and what it costs the simulation.

The gestures under way live in a list, the pins they hold in the graph, and the
heat they ask for in the target of the simulation.  `Holding held d s` says that
all three agree with one map `held`, which tells for every node how it is held.
An operation on a node changes this map at that node and nowhere else, or is
refused and changes nothing at all; one lemma for each operation says which.

Ends of gestures commute (`finish_comm`): the target falls with the last of them
whichever it is, and each one touches its own pin.  The order in which the list has
the gestures is seen by no operation (`begin_of_perm`, `move_of_perm`,
`finish_of_perm`).
-/
import Mathlib.Data.List.Nodup
import Mathlib.Logic.Function.Basic
import ForceDiagram.Simulation.Drag

namespace ForceDiagram

variable {F : Type} [Scalar F]

/-- How a node is held: by a pointer, at a distance from it. -/
structure Hold (F : Type) where
  pointer : Vec F
  offset : Vec F

/-- Where a node held so is pinned. -/
def Hold.pin (h : Hold F) : Vec F := h.pointer + h.offset

/-! ### Pins -/

namespace Simulation

/-- The pin of a node, if there is such a node and it is held. -/
def pin? (s : Simulation F) (i : Nat) : Option (Vec F) := s.graph.nodes[i]?.bind (·.pin)

omit [Scalar F] in
/-- The pins of a graph are read off its nodes. -/
theorem pin?_eq_of_map {s s' : Simulation F}
    (h : s'.graph.nodes.map (·.pin) = s.graph.nodes.map (·.pin)) : s'.pin? = s.pin? := by
  funext i
  have hread : ∀ s : Simulation F, s.pin? i = ((s.graph.nodes.map (·.pin))[i]?).join := by
    intro s
    rw [Array.getElem?_map, pin?]
    cases s.graph.nodes[i]? <;> rfl
  rw [hread, hread, h]

omit [Scalar F] in
theorem pin?_setPin (s : Simulation F) {node : Nat} (hnode : node < s.graph.nodes.size)
    (pin : Option (Vec F)) : (s.setPin node pin).pin? = Function.update s.pin? node pin := by
  funext i
  have hread : (s.setPin node pin).graph.nodes[i]? =
      if node = i then s.graph.nodes[i]?.map ({ · with pin }) else s.graph.nodes[i]? :=
    Array.getElem?_modify
  rcases eq_or_ne i node with rfl | hne
  · rw [Function.update_self, pin?, hread, if_pos rfl, Array.getElem?_eq_getElem hnode]
    rfl
  · rw [Function.update_of_ne hne, pin?, hread, if_neg hne.symm, pin?]

omit [Scalar F] in
theorem setPin_comm (s : Simulation F) {i j : Nat} (hne : i ≠ j) (pin pin' : Option (Vec F)) :
    (s.setPin i pin).setPin j pin' = (s.setPin j pin').setPin i pin := by
  have hnodes : (s.graph.nodes.modify i ({ · with pin })).modify j ({ · with pin := pin' }) =
      (s.graph.nodes.modify j ({ · with pin := pin' })).modify i ({ · with pin }) := by
    apply Array.ext_getElem?
    intro k
    simp only [Array.getElem?_modify]
    rcases eq_or_ne i k with rfl | hi
    · rw [if_pos rfl, if_pos rfl, if_neg hne.symm, if_neg hne.symm]
    · rw [if_neg hi, if_neg hi]
  simp only [setPin, Graph.modifyNode]
  rw [hnodes]

end Simulation

namespace Drag

/-! ### Gestures by their nodes -/

variable {d : Drag F} {s : Simulation F} {node : Nat} {pointer offset : Vec F}

omit [Scalar F] in
theorem isDragging_eq_false_iff : d.isDragging node = false ↔ d.gesture? node = none := by
  rw [isDragging, Option.isSome_eq_false_iff, Option.isNone_iff_eq_none]

omit [Scalar F] in
/-- A gesture that begins is found at its node. -/
theorem gesture?_cons (g : Gesture F) (d : Drag F) :
    (⟨g :: d.active⟩ : Drag F).gesture? = Function.update d.gesture? g.node (some g) := by
  funext i
  rcases eq_or_ne i g.node with rfl | hne
  · rw [Function.update_self, gesture?, List.find?_cons_of_pos (by simp)]
  · rw [Function.update_of_ne hne, gesture?, List.find?_cons_of_neg (by simp [hne.symm])]
    rfl

/-- The gestures left when one has ended. -/
def without (d : Drag F) (node : Nat) : Drag F := ⟨d.active.eraseP fun g => g.node == node⟩

omit [Scalar F] in
theorem without_cons_self (g : Gesture F) (rest : List (Gesture F)) :
    (⟨g :: rest⟩ : Drag F).without g.node = ⟨rest⟩ := by
  rw [without, List.eraseP_cons_of_pos (by simp)]

omit [Scalar F] in
theorem without_cons_of_ne {g : Gesture F} (hne : g.node ≠ node) (rest : List (Gesture F)) :
    (⟨g :: rest⟩ : Drag F).without node = ⟨g :: ((⟨rest⟩ : Drag F).without node).active⟩ := by
  rw [without, List.eraseP_cons_of_neg (by simp [hne])]
  rfl

omit [Scalar F] in
/-- The end of a gesture is not felt at another node. -/
theorem gesture?_without_of_ne (d : Drag F) {node i : Nat} (hne : i ≠ node) :
    (d.without node).gesture? i = d.gesture? i := by
  obtain ⟨active⟩ := d
  induction active with
  | nil => rfl
  | cons g rest ih =>
    rcases eq_or_ne g.node node with rfl | hnode
    · rw [without_cons_self, gesture?_cons g ⟨rest⟩, Function.update_of_ne hne]
    · rw [without_cons_of_ne hnode, gesture?_cons, gesture?_cons g ⟨rest⟩]
      simp only [Function.update_apply, ih]

omit [Scalar F] in
/-- A gesture that ends is no longer found, as no other one is on its node. -/
theorem gesture?_without_self (h : (d.active.map (·.node)).Nodup) (node : Nat) :
    (d.without node).gesture? node = none := by
  obtain ⟨active⟩ := d
  induction active with
  | nil => rfl
  | cons g rest ih =>
    obtain ⟨hg, hrest⟩ := List.nodup_cons.mp h
    rcases eq_or_ne g.node node with rfl | hne
    · -- this is the gesture, and no later one is on its node
      rw [without_cons_self]
      refine List.find?_eq_none.mpr fun g' hg' hsame => hg ?_
      exact List.mem_map.mpr ⟨g', hg', beq_iff_eq.mp hsame⟩
    · rw [without_cons_of_ne hne, gesture?_cons, Function.update_of_ne hne.symm]
      exact ih hrest

omit [Scalar F] in
theorem gesture?_without (h : (d.active.map (·.node)).Nodup) (node : Nat) :
    (d.without node).gesture? = Function.update d.gesture? node none := by
  funext i
  rcases eq_or_ne i node with rfl | hne
  · rw [Function.update_self, gesture?_without_self h]
  · rw [Function.update_of_ne hne, gesture?_without_of_ne d hne]

omit [Scalar F] in
theorem nodup_without (h : (d.active.map (·.node)).Nodup) (node : Nat) :
    ((d.without node).active.map (·.node)).Nodup :=
  h.sublist (List.eraseP_sublist.map _)

omit [Scalar F] in
/-- Gestures end in any order. -/
theorem without_comm (d : Drag F) {i j : Nat} (hne : i ≠ j) :
    (d.without i).without j = (d.without j).without i := by
  refine congrArg Drag.mk (List.eraseP_comm fun g _ => ?_)
  rcases eq_or_ne g.node i with rfl | hi
  · exact .inr (by simp [hne])
  · exact .inl (by simp [hi])

/-! ### What operations do -/

/-- The simulation a gesture begins in: the first one heats it up. -/
def heated (d : Drag F) (s : Simulation F) : Simulation F := if d.isIdle then reheated s else s

/-- The simulation a gesture leaves: it cools if no gesture is left. -/
def cooling (d : Drag F) (s : Simulation F) : Simulation F :=
  if d.isIdle then s.setAlphaTarget 0 else s

theorem begin_of_free (hnode : node < s.graph.nodes.size) (hfree : d.gesture? node = none) :
    d.begin s node pointer offset =
      (⟨⟨node, offset⟩ :: d.active⟩, (d.heated s).setPin node (some (pointer + offset))) := by
  have hfree := isDragging_eq_false_iff.mpr hfree
  rw [begin, if_pos (by simp [hnode, hfree])]
  rfl

/-- A gesture does not begin outside the graph or on a node that is held. -/
theorem begin_of_refused (h : s.graph.nodes.size ≤ node ∨ d.isDragging node = true) :
    d.begin s node pointer offset = (d, s) := by
  refine if_neg ?_
  rcases h with h | h
  · simp [Nat.not_lt.mpr h]
  · simp [h]

theorem grab_of_refused (h : s.graph.nodes.size ≤ node ∨ d.isDragging node = true) :
    d.grab s node pointer = (d, s) := by
  unfold grab
  split
  · exact begin_of_refused h
  · rfl

theorem move_of_not_dragging (h : d.isDragging node = false) : d.move s node pointer = s := by
  rw [move, isDragging_eq_false_iff.mp h]

theorem finish_of_dragging (h : d.isDragging node = true) :
    d.finish s node = (d.without node, ((d.without node).cooling s).setPin node none) := if_pos h

theorem finish_of_not_dragging (h : d.isDragging node = false) : d.finish s node = (d, s) :=
  if_neg (by simp [h])

/-! ### Ends of gestures -/

omit [Scalar F] in
theorem isDragging_without_of_ne (d : Drag F) {node i : Nat} (hne : i ≠ node) :
    (d.without node).isDragging i = d.isDragging i := by
  rw [isDragging, gesture?_without_of_ne d hne, isDragging]

omit [Scalar F] in
theorem isIdle_of_isDragging (h : d.isDragging node = true) : d.isIdle = false := by
  obtain ⟨active⟩ := d
  cases active with
  | nil => exact absurd h Bool.false_ne_true
  | cons g rest => rfl

theorem cooling_setPin (d : Drag F) (s : Simulation F) (node : Nat) (pin : Option (Vec F)) :
    d.cooling (s.setPin node pin) = (d.cooling s).setPin node pin := by
  unfold cooling
  split <;> rfl

/-- The end of one of several gestures lets its node go, and does no more. -/
theorem finish_of_several {i j : Nat} (hne : j ≠ i) (hi : d.isDragging i = true)
    (hj : d.isDragging j = true) : d.finish s i = (d.without i, s.setPin i none) := by
  have hleft : (d.without i).isIdle = false :=
    isIdle_of_isDragging ((isDragging_without_of_ne d hne).trans hj)
  rw [finish_of_dragging hi, cooling, if_neg (by simp [hleft])]

theorem finish_comm (d : Drag F) (s : Simulation F) (i j : Nat) :
    (d.finish s i).1.finish (d.finish s i).2 j = (d.finish s j).1.finish (d.finish s j).2 i := by
  rcases eq_or_ne i j with rfl | hne
  · rfl
  rcases hi : d.isDragging i with - | -
  · have hi' : (d.finish s j).1.isDragging i = false := by
      rcases hj : d.isDragging j with - | -
      · rw [finish_of_not_dragging hj]
        exact hi
      · rw [finish_of_dragging hj]
        exact (isDragging_without_of_ne d hne).trans hi
    rw [finish_of_not_dragging hi, finish_of_not_dragging hi']
  · rcases hj : d.isDragging j with - | -
    · have hj' : (d.without i).isDragging j = false :=
        (isDragging_without_of_ne d hne.symm).trans hj
      rw [finish_of_not_dragging hj, finish_of_dragging hi, finish_of_not_dragging hj']
    · -- whichever ends first finds the other still there
      have hi' := (isDragging_without_of_ne d hne).trans hi
      have hj' := (isDragging_without_of_ne d hne.symm).trans hj
      rw [finish_of_several hne.symm hi hj, finish_of_several hne hj hi,
        finish_of_dragging hj', finish_of_dragging hi', d.without_comm hne, cooling_setPin,
        cooling_setPin, Simulation.setPin_comm _ hne]

/-! ### The order of gestures -/

omit [Scalar F] in
/-- On distinct nodes, a gesture is found if it is there. -/
theorem gesture?_eq_some_iff (h : (d.active.map (·.node)).Nodup) {g : Gesture F} :
    d.gesture? node = some g ↔ g ∈ d.active ∧ g.node = node := by
  refine ⟨fun hg => ⟨List.mem_of_find?_eq_some hg, ?_⟩, ?_⟩
  · simpa using List.find?_some hg
  · rintro ⟨hg, rfl⟩
    rcases hfound : d.gesture? g.node with - | g'
    · exact absurd (beq_self_eq_true _) (List.find?_eq_none.mp hfound g hg)
    · -- another gesture found there would be on the same node
      have hg' := List.mem_of_find?_eq_some hfound
      have hsame : g'.node = g.node := by simpa using List.find?_some hfound
      rw [List.inj_on_of_nodup_map h hg' hg hsame]

section

variable {d' : Drag F} (hperm : d.active.Perm d'.active) (h : (d.active.map (·.node)).Nodup)

include hperm

omit [Scalar F] in
theorem isIdle_of_perm : d.isIdle = d'.isIdle := hperm.isEmpty_eq

include h

omit [Scalar F] in
theorem gesture?_of_perm (node : Nat) : d.gesture? node = d'.gesture? node := by
  ext g
  rw [gesture?_eq_some_iff h, gesture?_eq_some_iff ((hperm.map _).nodup_iff.mp h), hperm.mem_iff]

omit [Scalar F] in
theorem isDragging_of_perm (node : Nat) : d.isDragging node = d'.isDragging node := by
  rw [isDragging, gesture?_of_perm hperm h, isDragging]

theorem begin_of_perm (s : Simulation F) (node : Nat) (pointer offset : Vec F) :
    (d.begin s node pointer offset).1.active.Perm (d'.begin s node pointer offset).1.active ∧
      (d.begin s node pointer offset).2 = (d'.begin s node pointer offset).2 := by
  simp only [begin, isDragging_of_perm hperm h, isIdle_of_perm hperm]
  split
  · exact ⟨hperm.cons _, rfl⟩
  · exact ⟨hperm, rfl⟩

theorem grab_of_perm (s : Simulation F) (node : Nat) (pointer : Vec F) :
    (d.grab s node pointer).1.active.Perm (d'.grab s node pointer).1.active ∧
      (d.grab s node pointer).2 = (d'.grab s node pointer).2 := by
  unfold grab
  split
  · exact begin_of_perm hperm h s node pointer _
  · exact ⟨hperm, rfl⟩

theorem move_of_perm (s : Simulation F) (node : Nat) (pointer : Vec F) :
    d.move s node pointer = d'.move s node pointer := by
  rw [move, gesture?_of_perm hperm h, move]

omit [Scalar F] in
theorem perm_without (node : Nat) : (d.without node).active.Perm (d'.without node).active := by
  refine hperm.eraseP _ ((List.pairwise_map.mp h).imp fun hne hg hg' => hne ?_)
  rw [beq_iff_eq.mp hg, beq_iff_eq.mp hg']

theorem finish_of_perm (s : Simulation F) (node : Nat) :
    (d.finish s node).1.active.Perm (d'.finish s node).1.active ∧
      (d.finish s node).2 = (d'.finish s node).2 := by
  have hwithout := perm_without hperm h node
  rcases hdragging : d.isDragging node with - | -
  · have hdragging' := (isDragging_of_perm hperm h node).symm.trans hdragging
    rw [finish_of_not_dragging hdragging, finish_of_not_dragging hdragging']
    exact ⟨hperm, rfl⟩
  · have hdragging' := (isDragging_of_perm hperm h node).symm.trans hdragging
    rw [finish_of_dragging hdragging, finish_of_dragging hdragging', cooling,
      isIdle_of_perm hwithout]
    exact ⟨hwithout, rfl⟩

end

/-! ### What is held -/

/-- `Holding held d s`: gestures, pins and heat are those of nodes held as in
`held`. -/
structure Holding (held : Nat → Option (Hold F)) (d : Drag F) (s : Simulation F) : Prop where
  distinct : (d.active.map (·.node)).Nodup
  gestures : ∀ i, d.gesture? i = (held i).map fun h => ⟨i, h.offset⟩
  pins : ∀ i, s.pin? i = (held i).map Hold.pin
  target : s.alphaTarget = if d.isIdle then 0 else s.config.dragAlphaTarget

variable {held : Nat → Option (Hold F)} {d' : Drag F} {s' : Simulation F}

theorem Holding.isDragging_eq (h : Holding held d s) (i : Nat) :
    d.isDragging i = (held i).isSome := by
  rw [isDragging, h.gestures, Option.isSome_map]

/-- Only nodes of the graph are held. -/
theorem Holding.lt_size (h : Holding held d s) {i : Nat} (hi : (held i).isSome) :
    i < s.graph.nodes.size := by
  by_contra hout
  have hnode : s.graph.nodes[i]? = none := Array.getElem?_eq_none (Nat.not_lt.mp hout)
  have hpin := h.pins i
  rw [Simulation.pin?, hnode, Option.bind_none, eq_comm, Option.map_eq_none_iff] at hpin
  simp [hpin] at hi

/-- A change at one node, in the gestures, the pins and what is held alike. -/
theorem Holding.change (h : Holding held d s) {hold : Option (Hold F)}
    (hdistinct : (d'.active.map (·.node)).Nodup)
    (hgestures : d'.gesture? =
      Function.update d.gesture? node (hold.map fun h => ⟨node, h.offset⟩))
    (hpins : s'.pin? = Function.update s.pin? node (hold.map Hold.pin))
    (htarget : s'.alphaTarget = if d'.isIdle then 0 else s'.config.dragAlphaTarget) :
    Holding (Function.update held node hold) d' s' where
  distinct := hdistinct
  gestures := by
    intro i
    rw [hgestures]
    rcases eq_or_ne i node with rfl | hne
    · rw [Function.update_self, Function.update_self]
    · rw [Function.update_of_ne hne, Function.update_of_ne hne]
      exact h.gestures i
  pins := by
    intro i
    rw [hpins]
    rcases eq_or_ne i node with rfl | hne
    · rw [Function.update_self, Function.update_self]
    · rw [Function.update_of_ne hne, Function.update_of_ne hne]
      exact h.pins i
  target := htarget

theorem Holding.begin (h : Holding held d s) (hnode : node < s.graph.nodes.size)
    (hfree : held node = none) (pointer offset : Vec F) :
    Holding (Function.update held node (some ⟨pointer, offset⟩))
      (d.begin s node pointer offset).1 (d.begin s node pointer offset).2 := by
  have hgesture : d.gesture? node = none := by
    rw [h.gestures, hfree]
    rfl
  have hsize : node < (d.heated s).graph.nodes.size := by
    unfold heated
    split <;> exact hnode
  have hpins : (d.heated s).pin? = s.pin? := by
    unfold heated
    split <;> rfl
  rw [begin_of_free hnode hgesture]
  refine h.change ?_ (gesture?_cons _ d) ?_ ?_
  · refine List.nodup_cons.mpr ⟨fun hmem => ?_, h.distinct⟩
    obtain ⟨g, hg, hsame⟩ := List.mem_map.mp hmem
    exact List.find?_eq_none.mp hgesture g hg (beq_iff_eq.mpr hsame)
  · rw [Simulation.pin?_setPin _ hsize, hpins]
    rfl
  · -- the target has been there before unless this is the first gesture
    have htarget := h.target
    show (d.heated s).alphaTarget = (d.heated s).config.dragAlphaTarget
    rcases hidle : d.isIdle with - | -
    · rw [heated, hidle]
      rw [hidle] at htarget
      exact htarget
    · rw [heated, hidle]
      rfl

theorem Holding.move (h : Holding held d s) {hold : Hold F} (hheld : held node = some hold)
    (pointer : Vec F) :
    Holding (Function.update held node (some { hold with pointer })) d
      (d.move s node pointer) := by
  have hgesture : d.gesture? node = some ⟨node, hold.offset⟩ := by
    rw [h.gestures, hheld]
    rfl
  have hmove : d.move s node pointer = s.setPin node (some (pointer + hold.offset)) := by
    rw [Drag.move, hgesture]
  rw [hmove]
  -- the distance is the old one, so the gesture is the same
  refine h.change h.distinct ?_ (s.pin?_setPin (h.lt_size (by simp [hheld])) _) h.target
  exact (Function.update_eq_self_iff.mpr hgesture.symm).symm

theorem Holding.finish (h : Holding held d s) {hold : Hold F} (hheld : held node = some hold) :
    Holding (Function.update held node none) (d.finish s node).1 (d.finish s node).2 := by
  have hdragging : d.isDragging node = true := by
    rw [h.isDragging_eq, hheld]
    rfl
  have hnode := h.lt_size (i := node) (by simp [hheld])
  have hsize : node < ((d.without node).cooling s).graph.nodes.size := by
    unfold cooling
    split <;> exact hnode
  have hpins : ((d.without node).cooling s).pin? = s.pin? := by
    unfold cooling
    split <;> rfl
  rw [finish_of_dragging hdragging]
  refine h.change (nodup_without h.distinct node) (gesture?_without h.distinct node) ?_ ?_
  · rw [Simulation.pin?_setPin _ hsize, hpins]
    rfl
  · show ((d.without node).cooling s).alphaTarget =
      if (d.without node).isIdle then 0 else ((d.without node).cooling s).config.dragAlphaTarget
    rcases hidle : (d.without node).isIdle with - | -
    · -- a gesture is left, so there was one before
      have hbusy := isIdle_of_isDragging hdragging
      have htarget := h.target
      rw [hbusy] at htarget
      rw [cooling, hidle]
      exact htarget
    · rw [cooling, hidle]
      rfl

end Drag

end ForceDiagram
