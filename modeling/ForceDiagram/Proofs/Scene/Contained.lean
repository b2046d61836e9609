/-
ForceDiagram/Proofs/Scene/Contained.lean

A tick moves every node into the viewport, where the next tick leaves it.

A coordinate lies inside if it keeps to both bounds of its axis (`Inside`).  Where there is room
between the bounds, every number is moved inside, and what lies inside already stays: at most it
is exchanged for the bound that it equals.  This takes no more than a total preorder of the
numbers, and holds of infinite ones too.

Only nodes are moved, and they are moved last: links and labels are drawn between the places that
nodes had before.

Main result: `Graph.tick_contained`.
-/
import ForceDiagram.Proofs.Scalar.Order
import ForceDiagram.Proofs.Simulation.Frame

namespace ForceDiagram

variable {F : Type} [Scalar F]

open Scalar

/-! ### One axis -/

/-- The coordinate lies between the padding and the extent less the padding. -/
def Inside (extent padding x : F) : Prop := padding ≤ x ∧ x ≤ extent - padding

section

variable {extent padding x : F}

/-- Where there is room, every number is moved inside. -/
theorem inside_clampAxis (h : Ordered F) (hroom : padding ≤ extent - padding)
    (hx : isNumber x = true) : Inside extent padding (clampAxis x extent padding) := by
  obtain ⟨hlow, hhigh⟩ := h.isNumber_of_le hroom
  have hrefl : ∀ {a : F}, isNumber a = true → a ≤ a := fun ha => or_self_iff.mp (h.le_total ha ha)
  unfold clampAxis
  split
  · exact ⟨hrefl hlow, hroom⟩
  · next hpadding =>
    split
    · exact ⟨hroom, hrefl hhigh⟩
    · next hextent =>
      -- neither test succeeded, and numbers can be compared
      exact ⟨(h.le_total hx hlow).resolve_left hpadding,
        (h.le_total hx hhigh).resolve_right hextent⟩

/-- What lies inside stays where it is. -/
theorem clampAxis_of_inside (h : Ordered F) (hx : Inside extent padding x) :
    (clampAxis x extent padding == x) = true := by
  unfold clampAxis
  -- a test succeeds on the bound itself
  split
  · next hpadding => exact h.beq_of_le hx.1 hpadding
  · split
    · next hextent => exact h.beq_of_le hextent hx.2
    · exact (h.isNumber_of_le hx.1).2

end

namespace Graph

/-! ### Nodes -/

/-- The place lies inside on both axes. -/
def Contained (viewport : Viewport F) (padding : F) (place : Vec F) : Prop :=
  Inside viewport.width padding place.x ∧ Inside viewport.height padding place.y

section

variable {viewport : Viewport F} {config : Config F} {g : Graph F}

/-- A tick moves all nodes inside. -/
theorem contained_tick (h : Ordered F)
    (hnumbers : ∀ n ∈ g.nodes, isNumber n.pos.x = true ∧ isNumber n.pos.y = true)
    (hwidth : config.forcePadding ≤ viewport.width - config.forcePadding)
    (hheight : config.forcePadding ≤ viewport.height - config.forcePadding) :
    ∀ n ∈ (g.tick viewport config).1.nodes, Contained viewport config.forcePadding n.pos := by
  intro n hn
  obtain ⟨m, hm, rfl⟩ := Array.mem_map.mp hn
  obtain ⟨hx, hy⟩ := hnumbers m hm
  exact ⟨inside_clampAxis h hwidth hx, inside_clampAxis h hheight hy⟩

/-- A tick leaves nodes that are inside where they are. -/
theorem places_tick_of_contained (h : Ordered F)
    (hnodes : ∀ n ∈ g.nodes, Contained viewport config.forcePadding n.pos) :
    ((g.tick viewport config).1.nodes.map (·.pos) == g.nodes.map (·.pos)) = true := by
  have hstays : ∀ n ∈ g.nodes, ((clamped viewport config.forcePadding n).pos == n.pos) = true :=
    fun n hn => Bool.and_eq_true_iff.mpr
      ⟨clampAxis_of_inside h (hnodes n hn).1, clampAxis_of_inside h (hnodes n hn).2⟩
  have hmoved : (g.tick viewport config).1.nodes.map (·.pos) =
      g.nodes.map fun n => (clamped viewport config.forcePadding n).pos := Array.map_map ..
  rw [hmoved]
  exact map_beq_map hstays

end

/-! ### Links -/

/-- How far aside a link is drawn if its nodes are where they are. -/
def asideOf (config : Config F) (g : Graph F) (l : Link F) : Vec F :=
  sideways (l.bow.factor * config.bowDistance) (g.positionOf l.source) (g.positionOf l.target)

variable (viewport : Viewport F) (config : Config F) (g : Graph F)

theorem edges_tick :
    (g.tick viewport config).2.edges.map (fun e => (e.start, e.finish, e.offset)) =
      g.links.toList.map fun l =>
        (g.positionOf l.source, g.positionOf l.target, g.asideOf config l) := by
  have hread : ∀ i l, (fun e => (e.start, e.finish, e.offset)) (g.edgeShape i l) =
      (g.positionOf l.source, g.positionOf l.target, l.offset) := fun _ _ => rfl
  rw [tick, map_mapIdx_eq_map hread, Array.toList_map, List.map_map]
  rfl

theorem anchors_tick : (g.tick viewport config).2.labels.map (·.anchor) =
    g.links.toList.map fun l =>
      (g.positionOf l.source + g.positionOf l.target) * (0.5 : F) + g.asideOf config l := by
  have hread : ∀ i l, (g.edgeLabel i l).anchor =
      (g.positionOf l.source + g.positionOf l.target) * (0.5 : F) + l.offset := fun _ _ => rfl
  rw [tick, map_mapIdx_eq_map hread, Array.toList_map, List.map_map]
  rfl

/-- **A tick moves every node into the viewport, and once is enough.**  Whatever the numbers are:

* the scene shows nodes where they are after the tick;
* nothing changes of a graph but the places of its nodes and the offsets of its links;
* the lines and the labels of the scene are between the places that nodes had before.

And where comparison is a total preorder, there is room for nodes on both axes, and no coordinate
is anything but a number:

* after a tick all nodes are inside;
* a second tick leaves them there. -/
theorem tick_contained (viewport : Viewport F) (config : Config F) (g : Graph F) :
    let ticked := (g.tick viewport config).1
    let scene := (g.tick viewport config).2
    (scene.nodes.map (fun n => (n.name, n.center)) =
        ticked.nodes.toList.map (fun n => (n.name, n.pos)) ∧
      ticked.nodes.map (fun n => (n.name, n.velocity, n.pin)) =
        g.nodes.map (fun n => (n.name, n.velocity, n.pin)) ∧
      ticked.links.map Link.undrawn = g.links.map Link.undrawn ∧
      ticked.placed = g.placed ∧ (∀ name, ticked.indexOf? name = g.indexOf? name) ∧
      ticked.links.map (·.offset) = g.links.map (g.asideOf config) ∧
      scene.edges.map (fun e => (e.start, e.finish, e.offset)) = g.links.toList.map (fun l =>
        (g.positionOf l.source, g.positionOf l.target, g.asideOf config l)) ∧
      scene.labels.map (·.anchor) = g.links.toList.map fun l =>
        (g.positionOf l.source + g.positionOf l.target) * (0.5 : F) + g.asideOf config l) ∧
    (Ordered F → (∀ n ∈ g.nodes, isNumber n.pos.x = true ∧ isNumber n.pos.y = true) →
      config.forcePadding ≤ viewport.width - config.forcePadding →
      config.forcePadding ≤ viewport.height - config.forcePadding →
      (∀ n ∈ ticked.nodes, Contained viewport config.forcePadding n.pos) ∧
      ((ticked.tick viewport config).1.nodes.map (·.pos) == ticked.nodes.map (·.pos)) = true) := by
  intro ticked scene
  have hlinks := (shape_eq_iff.mp (shape_tick viewport config g)).2
  refine ⟨⟨List.map_map .., map_nodes_tick viewport config g fun _ _ => rfl, hlinks, rfl,
    fun name => ?_, Array.map_map .., edges_tick viewport config g,
    anchors_tick viewport config g⟩, fun h hnumbers hwidth hheight => ?_⟩
  · rw [indexOf?_eq_findIdx?_names, indexOf?_eq_findIdx?_names, shape_tick]
  · have hcontained := contained_tick h hnumbers hwidth hheight
    exact ⟨hcontained, places_tick_of_contained h hcontained⟩

/-- Infinite places, one beyond a bound and one on it, in a viewport with just room enough. -/
theorem tick_contained_of_infinite :
    let far : Float32 := 1 / 0
    let g : Graph Float32 :=
      ⟨#[⟨"a", ⟨-far, far⟩, ⟨1, -2⟩, none⟩, ⟨"b", ⟨35, 300⟩, .zero, some ⟨0, 0⟩⟩,
        ⟨"c", ⟨36, 65⟩, .zero, none⟩], #[⟨0, 1, .response, .forth, .zero⟩], true⟩
    let viewport : Viewport Float32 := ⟨70, 100⟩
    let config : Config Float32 := .standard
    let ticked := (g.tick viewport config).1
    let scene := (g.tick viewport config).2
    (∀ n ∈ g.nodes, isNumber n.pos.x = true ∧ isNumber n.pos.y = true) ∧
    config.forcePadding ≤ viewport.width - config.forcePadding ∧
    config.forcePadding ≤ viewport.height - config.forcePadding ∧
    (∀ n ∈ ticked.nodes, Contained viewport config.forcePadding n.pos) ∧
    ((ticked.tick viewport config).1.nodes.map (·.pos) == ticked.nodes.map (·.pos)) = true ∧
    scene.edges.map (·.start) = [⟨-far, far⟩] := by
  intro far g viewport config ticked scene
  have hnumbers : ∀ n ∈ g.nodes, isNumber n.pos.x = true ∧ isNumber n.pos.y = true := by
    decide +kernel
  have hwidth : config.forcePadding ≤ viewport.width - config.forcePadding := by decide +kernel
  have hheight : config.forcePadding ≤ viewport.height - config.forcePadding := by decide +kernel
  obtain ⟨⟨-, -, -, -, -, -, hedges, -⟩, hinside⟩ := tick_contained viewport config g
  obtain ⟨hcontained, hplaces⟩ := hinside Single.ordered hnumbers hwidth hheight
  have hstarts := congrArg (List.map (·.1)) hedges
  rw [List.map_map] at hstarts
  exact ⟨hnumbers, hwidth, hheight, hcontained, hplaces, hstarts⟩

end Graph

end ForceDiagram
