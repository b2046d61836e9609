/-
ForceDiagram/Proofs/Window/Drags.lean

Drags, frame by frame.

A canvas remembers which node the pointer drags, and its view which nodes are
held.  Both are about the same node as long as drags come one after the other and
each of them ends on a canvas that can be seen (`Canvas.Tidy`): whatever ends a
drag before its time, another viewport or another dataset, ends it in both.  A
canvas that is collapsed does not hear of the end of a drag, and goes on holding
the node (`Canvas.Tidy.held_of_collapsed`).  A pointer brings drags one after the
other by itself, whatever its events are (`Pointer.inOrder_handlings`).
-/
import ForceDiagram.Proofs.View.Gestures
import ForceDiagram.Proofs.Window.Canvas
import ForceDiagram.Proofs.Window.Events
import ForceDiagram.Scalar.Single

namespace ForceDiagram

variable {F : Type} [Scalar F]

/-! ### Drags in order -/

/-- Whether a drag is under way after a frame. -/
def Handling.busyAfter (busy : Bool) (p : Handling F) : Bool :=
  (busy || p.begins.isSome) && !p.ends

/-- Drags follow each other: none begins before the one before it has ended.
`busy` says whether one is under way at the start. -/
def Handling.InOrder (busy : Bool) : List (Handling F) → Prop
  | [] => True
  | p :: rest => (p.begins.isSome = true → busy = false) ∧ InOrder (p.busyAfter busy) rest

namespace Pointer

/-- What a pointer does to the canvas in some frames, each with the area where the
canvas was shown before and the events of the frame. -/
def handlings (p : Pointer F) :
    List (Option (Rect F) × List (PointerEvent F)) → List (Handling F)
  | [] => []
  | f :: rest => (p.frame f.1 f.2).2 :: (p.frame f.1 f.2).1.handlings rest

/-- A drag begins only where the pointer is not dragging yet. -/
theorem not_dragging_of_begins {p : Pointer F} {area : Option (Rect F)}
    {events : List (PointerEvent F)} (h : (p.frame area events).2.begins.isSome = true) :
    p.dragging = false ∧ (p.frame area events).1.dragging = true := by
  simp only [frame] at h ⊢
  split at h
  · next hbegins =>
    simp only [Bool.and_eq_true, Bool.not_eq_true'] at hbegins
    exact ⟨hbegins.1.2, hbegins.1.1⟩
  · cases h

theorem ends_eq (p : Pointer F) (area : Option (Rect F)) (events : List (PointerEvent F)) :
    (p.frame area events).2.ends = (p.dragging && !(p.frame area events).1.dragging) := rfl

/-- The drags of a pointer come one after the other, whatever its events are. -/
theorem inOrder_handlings {p : Pointer F} {busy : Bool}
    (hbusy : busy = true → p.dragging = true)
    (frames : List (Option (Rect F) × List (PointerEvent F))) :
    Handling.InOrder busy (p.handlings frames) := by
  induction frames generalizing p busy with
  | nil => trivial
  | cons f rest ih =>
    refine ⟨fun hbegins => ?_, ih fun hafter => ?_⟩
    · have hfree := (not_dragging_of_begins hbegins).1
      rw [← Bool.not_eq_true]
      exact fun hbusy' => absurd (hfree.symm.trans (hbusy hbusy')) Bool.false_ne_true
    · rw [Handling.busyAfter, ends_eq, Bool.and_eq_true, Bool.or_eq_true] at hafter
      obtain ⟨hold | hbegins, hgoes⟩ := hafter
      · simpa [hbusy hold] using hgoes
      · exact (not_dragging_of_begins hbegins).2

end Pointer

/-! ### Views with one hold at most -/

namespace Handled

/-- The view shows the records, and holds the node that is dragged and no other. -/
structure Sole (records : List Record) (h : Handled F) : Prop where
  shows : h.view.Shows records
  held : ∃ config held, h.view.Held config held ∧
    ∀ i, (held i).isSome = true ↔ h.dragged = some i

variable {records : List Record} {h : Handled F}

/-- Nothing is held where nothing is dragged. -/
theorem Sole.of_none {v : View F} {config : Config F} (hshows : v.Shows records)
    (hheld : v.Held config fun _ => none) : Sole records ⟨v, none⟩ :=
  ⟨hshows, config, fun _ => none, hheld, by simp⟩

theorem Sole.held_none (hs : Sole records h) (hdragged : h.dragged = none) :
    ∃ config, h.view.Held config fun _ => none := by
  obtain ⟨config, held, hheld, hiff⟩ := hs.held
  have hnone : held = fun _ => none := by
    funext i
    rw [← Option.not_isSome_iff_eq_none, hiff, hdragged]
    nofun
  exact ⟨config, hnone ▸ hheld⟩

/-- What is dragged is a node of the view. -/
theorem Sole.lt_size (hs : Sole records h) {node : Nat} (hdragged : h.dragged = some node) :
    node < h.view.graph.nodes.size := by
  obtain ⟨config, held, hheld, hiff⟩ := hs.held
  exact hheld.holding.lt_size ((hiff node).mpr hdragged)

theorem Sole.grab (hs : Sole records h) (hfree : h.dragged = none) {node : Nat}
    (hnode : node < h.view.graph.nodes.size) (pointer : Vec F) :
    Sole records ⟨h.view.grab node pointer, some node⟩ where
  shows := hs.shows.perform (.grab node pointer)
  held := by
    obtain ⟨config, hheld⟩ := hs.held_none hfree
    refine ⟨config, _, hheld.perform (.grab node pointer), fun i => ?_⟩
    rw [View.Action.holds, Array.getElem?_eq_getElem hnode]
    rcases eq_or_ne i node with rfl | hne
    · simp
    · simp [hne, hne.symm]

theorem Sole.dragMove (hs : Sole records h) (node : Nat) (pointer : Vec F) :
    Sole records { h with view := h.view.dragMove node pointer } where
  shows := hs.shows.perform (.dragMove node pointer)
  held := by
    obtain ⟨config, held, hheld, hiff⟩ := hs.held
    refine ⟨config, _, hheld.perform (.dragMove node pointer), fun i => ?_⟩
    rw [← hiff i, View.Action.holds]
    rcases eq_or_ne i node with rfl | hne
    · simp
    · simp [hne]

theorem Sole.dragEnd (hs : Sole records h) {node : Nat} (hdragged : h.dragged = some node) :
    Sole records ⟨h.view.dragEnd node, none⟩ where
  shows := hs.shows.perform (.dragEnd node)
  held := by
    obtain ⟨config, held, hheld, hiff⟩ := hs.held
    refine ⟨config, _, hheld.perform (.dragEnd node), fun i => ?_⟩
    rw [View.Action.holds]
    rcases eq_or_ne i node with rfl | hne
    · simp
    · simp [hne, hiff, hdragged, hne.symm]

theorem Sole.begin (hs : Sole records h) (hfree : h.dragged = none) (origin : Vec F)
    (place : Option (Vec F)) : Sole records (h.begin origin place) := by
  unfold Handled.begin
  split
  · next node hnode =>
    have hgrab := hs.grab hfree (hs.shows.lt_size_of_nodeAt? hnode) origin
    cases place with
    | none => exact hgrab
    | some p => exact hgrab.dragMove node p
  · exact hs

theorem Sole.follow (hs : Sole records h) (place : Option (Vec F)) :
    Sole records (h.follow place) := by
  unfold Handled.follow
  split
  · next node p hdragged => exact hs.dragMove node p
  · exact hs

theorem Sole.moved (hs : Sole records h) {p : Handling F}
    (hfree : p.begins.isSome = true → h.dragged = none) : Sole records (h.moved p) := by
  unfold Handled.moved
  split
  · next origin horigin => exact hs.begin (hfree (by rw [horigin]; rfl)) origin p.place
  · split
    · exact hs.follow p.place
    · exact hs

theorem Sole.letGo (hs : Sole records h) : Sole records h.letGo := by
  unfold Handled.letGo
  split
  · next node hdragged => exact hs.dragEnd hdragged
  · exact hs

theorem Sole.handle (hs : Sole records h) {p : Handling F}
    (hfree : p.begins.isSome = true → h.dragged = none) : Sole records (h.handle p) := by
  rw [handle_eq]
  split
  · exact (hs.moved hfree).letGo
  · exact hs.moved hfree

theorem Sole.advance (hs : Sole records h) : Sole records h.advance where
  shows := shows_advance hs.shows
  held := by
    obtain ⟨config, held, hheld, hiff⟩ := hs.held
    exact ⟨config, held, hheld.perform .advance, hiff⟩

/-- The gestures under way are on the node that is dragged. -/
theorem Sole.active_eq (hs : Sole records h) :
    h.view.drag.active.map (·.node) = h.dragged.toList := by
  obtain ⟨config, held, hheld, hiff⟩ := hs.held
  have hmem : ∀ i, i ∈ h.view.drag.active.map (·.node) ↔ h.dragged = some i := by
    intro i
    rw [← hiff i, ← hheld.holding.isDragging_eq, Drag.isDragging, Drag.gesture?,
      List.find?_isSome, List.mem_map]
    simp only [beq_iff_eq]
  have hperm : (h.view.drag.active.map (·.node)).Perm h.dragged.toList := by
    refine (List.perm_ext_iff_of_nodup hheld.holding.distinct ?_).mpr fun i => ?_
    · cases h.dragged <;> simp
    · rw [hmem, Option.mem_toList]
  cases hdragged : h.dragged with
  | none =>
    rw [hdragged] at hperm
    exact hperm.eq_nil
  | some node =>
    rw [hdragged] at hperm
    exact hperm.eq_singleton

/-- The node that is dragged has a pin. -/
theorem Sole.isSome_pin (hs : Sole records h) {node : Nat} (hdragged : h.dragged = some node) :
    (h.view.simulation.pin? node).isSome = true := by
  obtain ⟨config, held, hheld, hiff⟩ := hs.held
  rw [hheld.holding.pins, Option.isSome_map]
  exact (hiff node).mpr hdragged

/-- Where nothing is dragged the view is as if nothing ever had been: no node has
a pin, and the heat goes to zero. -/
theorem Sole.free (hs : Sole records h) (hdragged : h.dragged = none) :
    (∀ n ∈ h.view.graph.nodes, n.pin = none) ∧ h.view.isDragging = false ∧
      h.view.simulation.alphaTarget = 0 := by
  obtain ⟨config, hheld⟩ := hs.held_none hdragged
  have hidle : h.view.drag.isIdle = true := by
    have hactive := hs.active_eq
    rw [hdragged, Option.toList_none, List.map_eq_nil_iff] at hactive
    rw [Drag.isIdle, hactive, List.isEmpty_nil]
  refine ⟨fun n hn => ?_, by rw [View.isDragging, hidle]; rfl, ?_⟩
  · obtain ⟨i, hi⟩ := Array.mem_iff_getElem?.mp hn
    have hi : h.view.simulation.graph.nodes[i]? = some n := hi
    have hpin := hheld.holding.pins i
    rwa [Simulation.pin?, hi, Option.bind_some] at hpin
  · rw [hheld.holding.target, if_pos hidle]

/-! ### Whether a node is dragged -/

theorem dragged_letGo (h : Handled F) : h.letGo.dragged = none := by
  unfold letGo
  split
  · rfl
  · next hnone => exact hnone

theorem isSome_dragged_moved {p : Handling F} (hdragged : (h.moved p).dragged.isSome = true) :
    h.dragged.isSome = true ∨ p.begins.isSome = true := by
  unfold moved at hdragged
  split at hdragged
  · next origin horigin => exact .inr (by rw [horigin]; rfl)
  · refine .inl ?_
    split at hdragged
    · unfold follow at hdragged
      split at hdragged <;> exact hdragged
    · exact hdragged

/-- A node is dragged only while the pointer drags. -/
theorem isSome_dragged_handle {p : Handling F} {busy : Bool}
    (hbusy : h.dragged.isSome = true → busy = true)
    (hdragged : (h.handle p).dragged.isSome = true) : p.busyAfter busy = true := by
  rw [handle_eq] at hdragged
  split at hdragged
  · rw [dragged_letGo] at hdragged
    cases hdragged
  · next hends =>
    rw [Handling.busyAfter, Bool.and_eq_true, Bool.or_eq_true]
    exact ⟨(isSome_dragged_moved hdragged).imp_left hbusy, by simpa using hends⟩

end Handled

/-! ### Canvases -/

namespace Canvas

/-- The node that is dragged is the one node that is held, and it is dragged only
while a drag is under way, as `busy` tells. -/
structure Tidy (busy : Bool) (c : Canvas F) : Prop where
  dragging : c.dragged.isSome = true → busy = true
  unseen : c.view = none → c.dragged = none
  seen : ∀ v, c.view = some v → Handled.Sole c.records ⟨v, c.dragged⟩

variable {c : Canvas F} {busy : Bool}

theorem tidy_ofRecords (busy : Bool) (records : List Record) (config : Config F) :
    (ofRecords records config).Tidy busy where
  dragging := nofun
  unseen _ := rfl
  seen := nofun

/-- Another dataset ends the drag, in the canvas and in the view. -/
theorem tidy_setRecords (busy : Bool) (c : Canvas F) (records : List Record) :
    (c.setRecords records).Tidy busy where
  dragging := nofun
  unseen _ := rfl
  seen v hv := by
    obtain ⟨old, hold, rfl⟩ := Option.map_eq_some_iff.mp hv
    exact .of_none (View.shows_ofRecords _ _ _) (View.held_ofRecords _ _ _)

/-- So does another viewport. -/
theorem Tidy.fit (h : c.Tidy busy) (viewport : Viewport F) :
    Handled.Sole c.records (c.fit viewport) ∧
      ((c.fit viewport).dragged.isSome = true → busy = true) := by
  unfold Canvas.fit
  split
  · next v hv =>
    have hs := h.seen v hv
    rcases heq : viewport == v.viewport with - | -
    · -- the view is another one, in which nothing is held
      obtain ⟨config, held, hheld, -⟩ := hs.held
      have hresized := hheld.perform (.resize viewport)
      rw [View.Action.holds, if_neg (by simp [heq])] at hresized
      have hshows := hs.shows.perform (.resize viewport)
      simp only [View.perform, View.resize_of_ne heq] at hresized hshows ⊢
      exact ⟨.of_none hshows hresized, by simp⟩
    · simp only [View.resize_of_eq heq]
      exact ⟨hs, h.dragging⟩
  · next hv =>
    simp only [h.unseen hv]
    exact ⟨.of_none (View.shows_ofRecords _ _ _) (View.held_ofRecords _ _ _), by simp⟩

theorem Tidy.handled (h : c.Tidy busy) (area : Rect F) {p : Handling F}
    (hbegins : p.begins.isSome = true → busy = false) :
    Handled.Sole c.records (c.handled area p) ∧
      ((c.handled area p).dragged.isSome = true → p.busyAfter busy = true) := by
  obtain ⟨hs, hbusy⟩ := h.fit (viewportOf area)
  unfold Canvas.handled
  dsimp only
  split
  · next hempty =>
    -- there is no node that could be dragged
    refine ⟨hs, fun hdragged => ?_⟩
    obtain ⟨node, hnode⟩ := Option.isSome_iff_exists.mp hdragged
    have hlt := hs.lt_size hnode
    rw [Array.isEmpty_iff_size_eq_zero.mp hempty] at hlt
    exact absurd hlt (Nat.not_lt_zero node)
  · have hfree : (localHandling area p).begins.isSome = true →
        (c.fit (viewportOf area)).dragged = none := by
      intro hp
      rw [localHandling, Option.isSome_map] at hp
      rw [← Option.not_isSome_iff_eq_none]
      intro hdragged
      exact absurd ((hbegins hp).symm.trans (hbusy hdragged)) Bool.false_ne_true
    refine ⟨(hs.handle hfree).advance, fun hdragged => ?_⟩
    have hafter := Handled.isSome_dragged_handle hbusy hdragged
    rwa [Handling.busyAfter, localHandling, Option.isSome_map] at hafter

/-- A frame keeps a canvas tidy, unless a drag ends where there is no canvas to be
seen. -/
theorem Tidy.frame (h : c.Tidy busy) {area : Rect F} {p : Handling F}
    (hbegins : p.begins.isSome = true → busy = false)
    (hends : p.ends = true → isCollapsed (viewportOf area) = false) :
    (c.frame area p).1.Tidy (p.busyAfter busy) := by
  rcases hcollapsed : isCollapsed (viewportOf area) with - | -
  · rw [frame_of_not_collapsed hcollapsed]
    obtain ⟨hs, hbusy⟩ := h.handled area hbegins
    exact ⟨hbusy, nofun, fun v hv => Option.some.inj hv ▸ hs⟩
  · rw [frame_of_collapsed hcollapsed]
    -- the canvas is as it was, and no drag ends here
    refine ⟨fun hdragged => ?_, h.unseen, h.seen⟩
    have hgoes : p.ends = false := by
      by_contra hp
      rw [hends (Bool.eq_true_of_not_eq_false hp)] at hcollapsed
      cases hcollapsed
    rw [Handling.busyAfter, h.dragging hdragged, hgoes]
    rfl

/-- The node that is dragged has the only gesture, and a pin. -/
theorem Tidy.held (h : c.Tidy busy) {v : View F} (hview : c.view = some v) {node : Nat}
    (hdragged : c.dragged = some node) :
    v.drag.active.map (·.node) = [node] ∧ (v.simulation.pin? node).isSome = true := by
  have hsole := h.seen v hview
  refine ⟨?_, hsole.isSome_pin hdragged⟩
  rw [hsole.active_eq, hdragged]
  rfl

/-- The end of a drag is lost on a collapsed canvas: the node goes on being held. -/
theorem Tidy.held_of_collapsed (h : c.Tidy busy) {area : Rect F}
    (hcollapsed : isCollapsed (viewportOf area) = true) (p : Handling F) {node : Nat}
    (hdragged : c.dragged = some node) :
    (c.frame area p).1.dragged = some node ∧
      ∃ v, (c.frame area p).1.view = some v ∧ v.drag.active.map (·.node) = [node] := by
  rw [frame_of_collapsed hcollapsed]
  refine ⟨hdragged, ?_⟩
  rcases hview : c.view with - | v
  · rw [h.unseen hview] at hdragged
    cases hdragged
  · have hactive := (h.seen v hview).active_eq
    simp only [hdragged] at hactive
    exact ⟨v, rfl, hactive⟩

end Canvas

/-! ### Windows -/

namespace Window

/-- The canvas of the window, if there is one, is tidy. -/
def Tidy (busy : Bool) (w : Window F) : Prop :=
  ∀ canvas, w.screen = .ready canvas → canvas.Tidy busy

variable {w : Window F} {busy : Bool}

theorem Tidy.apply (h : w.Tidy busy) (outcome : Outcome) : (w.apply outcome).Tidy busy := by
  intro canvas hcanvas
  unfold Window.apply at hcanvas
  split at hcanvas
  · split at hcanvas
    · obtain rfl := Screen.ready.inj hcanvas
      exact Canvas.tidy_setRecords busy _ _
    · obtain rfl := Screen.ready.inj hcanvas
      exact Canvas.tidy_ofRecords busy _ _
  · split at hcanvas
    · exact h canvas hcanvas
    · cases hcanvas

theorem Tidy.take (h : w.Tidy busy) (d : Dropped) : (w.take d).1.Tidy busy := by
  unfold Window.take
  split
  · next content _ _ => exact Tidy.apply (w := { w with requests := w.requests + 1 }) h _
  · exact h
  · exact h

theorem Tidy.takeAll (h : w.Tidy busy) (drops : List Dropped) :
    (w.takeAll drops).1.Tidy busy := by
  induction drops generalizing w with
  | nil => exact h
  | cons d rest ih => exact ih (h.take d)

theorem Tidy.poll (h : w.Tidy busy) (mail : Mail) : (w.poll mail).Tidy busy := by
  unfold Window.poll
  split
  · next outcome _ => exact Tidy.apply (w := { w with reload := none }) h outcome
  · exact h

theorem Tidy.draw (h : w.Tidy busy) (mail : Mail) {area : Rect F} {p : Handling F}
    (retries : Bool) (hbegins : p.begins.isSome = true → busy = false)
    (hends : p.ends = true → Canvas.isCollapsed (Canvas.viewportOf area) = false) :
    (w.draw mail area p retries).1.Tidy (p.busyAfter busy) := by
  unfold Window.draw
  rcases hscreen : w.screen with request | canvas | failure
  · -- there is no canvas yet, and a new one comes without a drag
    have hnone : w.Tidy (p.busyAfter busy) := fun canvas hcanvas => by
      rw [hscreen] at hcanvas
      cases hcanvas
    dsimp only
    split
    · exact hnone.apply _
    · exact hnone
  · intro canvas' hcanvas'
    obtain rfl := Screen.ready.inj hcanvas'
    exact (h canvas hscreen).frame hbegins hends
  · dsimp only
    split
    · exact nofun
    · intro canvas hcanvas
      rw [hscreen] at hcanvas
      cases hcanvas

theorem Tidy.frame (h : w.Tidy busy) (mail : Mail) {f : WindowFrame F}
    (hbegins : f.handling.begins.isSome = true → busy = false)
    (hends : f.handling.ends = true → Canvas.isCollapsed (Canvas.viewportOf f.area) = false) :
    (w.frame mail f).1.Tidy (f.handling.busyAfter busy) :=
  ((h.takeAll f.drops).poll mail).draw mail f.retries hbegins hends

/-- Frames whose drags come one after the other keep a window tidy. -/
theorem Tidy.run (h : w.Tidy busy) {frames : List (Mail × WindowFrame F)}
    (horder : Handling.InOrder busy (frames.map (·.2.handling)))
    (hends : ∀ f ∈ frames, f.2.handling.ends = true →
      Canvas.isCollapsed (Canvas.viewportOf f.2.area) = false) :
    (w.run frames).Tidy
      ((frames.map (·.2.handling)).foldl (fun busy p => p.busyAfter busy) busy) := by
  induction frames generalizing w busy with
  | nil => exact h
  | cons f rest ih =>
    exact ih (h.frame f.1 horder.1 (hends f List.mem_cons_self)) horder.2
      fun g hg => hends g (List.mem_cons_of_mem f hg)

theorem tidy_start (busy : Bool) (path : String) (config : Config F) :
    (start path config).1.Tidy busy := nofun

/-- **No drag is left behind, unless it ends on a collapsed canvas.**  When drags
come one after the other, whatever else happens in between, the gestures under way
in the view are on the node that the pointer drags, and after a frame in which a
drag has ended no node has a pin and the heat goes to zero. -/
theorem no_drag_left (path : String) (config : Config F) (frames : List (Mail × WindowFrame F))
    (horder : Handling.InOrder false (frames.map (·.2.handling)))
    (hends : ∀ f ∈ frames, f.2.handling.ends = true →
      Canvas.isCollapsed (Canvas.viewportOf f.2.area) = false) :
    ∀ canvas, ((start path config).1.run frames).screen = .ready canvas →
      (canvas.view = none → canvas.dragged = none) ∧
      ∀ v, canvas.view = some v →
        v.drag.active.map (·.node) = canvas.dragged.toList ∧
        ∀ f, frames.getLast? = some f → f.2.handling.ends = true →
          canvas.dragged = none ∧ (∀ n ∈ v.graph.nodes, n.pin = none) ∧
            v.isDragging = false ∧ v.simulation.alphaTarget = 0 := by
  intro canvas hcanvas
  have htidy := (tidy_start false path config).run horder hends canvas hcanvas
  refine ⟨htidy.unseen, fun v hv => ?_⟩
  have hsole := htidy.seen v hv
  refine ⟨hsole.active_eq, fun f hf hended => ?_⟩
  obtain ⟨before, rfl⟩ := List.getLast?_eq_some_iff.mp hf
  -- no drag is under way after the last frame
  have hnone : canvas.dragged = none := by
    rw [← Option.not_isSome_iff_eq_none]
    intro hdragged
    have hbusy := htidy.dragging hdragged
    rw [List.map_append, List.foldl_append] at hbusy
    simp [Handling.busyAfter, hended] at hbusy
  exact ⟨hnone, hsole.free hnone⟩

end Window

/-! ### A drag from its beginning to its end -/

/-- Numbers in single precision, with the sines and cosines of the angles at which the first two
nodes start and no others, and with lengths that single precision is enough for. -/
def TwoAngles : Type := Float32

namespace TwoAngles

def sin (x : Float32) : Float32 := if x == 0 then x else 0.6754903

def cos (x : Float32) : Float32 := if x == 0 then 1 else -0.7373689

def hypot (x y : Float32) : Float32 := (x * x + y * y).sqrt

instance : Scalar TwoAngles := { (inferInstance : Scalar Float32) with sin, cos, hypot }

/-- A canvas of two nodes. -/
def shown : Canvas TwoAngles := .ofRecords [⟨"a", "b", "response"⟩] .standard

def area : Rect TwoAngles := ⟨.zero, ⟨100, 100⟩⟩

def idle : Handling TwoAngles := ⟨none, false, false, none, none⟩

/-- The pointer is pressed in the middle and moves. -/
def presses : Handling TwoAngles := ⟨some ⟨50, 50⟩, true, false, some ⟨60, 50⟩, none⟩

def releases : Handling TwoAngles := ⟨none, false, true, some ⟨60, 50⟩, none⟩

theorem isCollapsed_area : Canvas.isCollapsed (Canvas.viewportOf area) = false := by
  decide +kernel

/-- Once the nodes have been drawn, the middle is on the second one. -/
theorem dragged_presses :
    ((shown.frame area idle).1.frame area presses).1.dragged = some 1 := by
  decide +kernel

end TwoAngles

namespace Window

/-- Where no file is dropped and none is on its way, frames are those of the canvas. -/
theorem screen_run_of_ready {w : Window F} {canvas : Canvas F} (hscreen : w.screen = .ready canvas)
    (hreload : w.reload = none) (mail : Mail) (area : Rect F) (ps : List (Handling F)) :
    (w.run (ps.map fun p => (mail, ⟨[], area, p, false⟩))).screen =
      .ready (ps.foldl (fun canvas p => (canvas.frame area p).1) canvas) := by
  induction ps generalizing w canvas with
  | nil => exact hscreen
  | cons p ps ih =>
    have hpoll : w.poll mail = w := by
      rw [poll, hreload]
      rfl
    have hframe : (w.frame mail ⟨[], area, p, false⟩).1 =
        { w with screen := .ready (canvas.frame area p).1 } := by
      show ((w.poll mail).draw mail area p false).1 = _
      rw [hpoll, draw, hscreen]
    rw [List.map_cons, run, List.foldl_cons, hframe, List.foldl_cons]
    exact ih rfl hreload

section

open TwoAngles

/-- Two nodes are shown, one of them is grabbed and moved, and is let go in the next frame. -/
theorem no_drag_left_of_two :
    let mail : Mail := fun _ => .arrived (.ok [⟨"a", "b", "response"⟩])
    let framesOf : List (Handling TwoAngles) → List (Mail × WindowFrame TwoAngles) :=
      List.map fun p => (mail, ⟨[], area, p, false⟩)
    let w : Window TwoAngles := (start "traces.json" .standard).1
    let frames := framesOf [idle, idle, presses, releases]
    Handling.InOrder false (frames.map (·.2.handling)) ∧
    (∀ f ∈ frames, f.2.handling.ends = true →
      Canvas.isCollapsed (Canvas.viewportOf f.2.area) = false) ∧
    (∃ canvas v, (w.run (framesOf [idle, idle, presses])).screen = .ready canvas ∧
      canvas.view = some v ∧ canvas.dragged = some 1 ∧ v.drag.active.map (·.node) = [1] ∧
      (v.simulation.pin? 1).isSome = true) ∧
    ∃ canvas v, (w.run frames).screen = .ready canvas ∧
      canvas.view = some v ∧ v.drag.active.map (·.node) = canvas.dragged.toList ∧
      canvas.dragged = none ∧ (∀ n ∈ v.graph.nodes, n.pin = none) ∧ v.isDragging = false ∧
      v.simulation.alphaTarget = 0 := by
  intro mail framesOf w frames
  have horder : Handling.InOrder false (frames.map (·.2.handling)) :=
    ⟨nofun, nofun, fun _ => rfl, nofun, trivial⟩
  have hends : ∀ f ∈ frames, f.2.handling.ends = true →
      Canvas.isCollapsed (Canvas.viewportOf f.2.area) = false := by
    intro f hf _
    obtain ⟨p, -, rfl⟩ := List.mem_map.mp hf
    exact isCollapsed_area
  -- the first frame finds the dataset, and those after it are frames of a canvas
  have hready : (w.run (framesOf [idle])).screen = .ready shown := rfl
  have hrun : ∀ ps, (w.run (framesOf (idle :: ps))).screen =
      .ready (ps.foldl (fun canvas p => (canvas.frame area p).1) shown) :=
    screen_run_of_ready hready rfl mail area
  refine ⟨horder, hends, ?_, ?_⟩
  · have hscreen := hrun [idle, presses]
    rw [List.foldl_cons, List.foldl_cons, List.foldl_nil] at hscreen
    have horder : Handling.InOrder false ((framesOf [idle, idle, presses]).map (·.2.handling)) :=
      ⟨nofun, nofun, fun _ => rfl, trivial⟩
    have htidy := (tidy_start false "traces.json" .standard).run horder
      (fun f hf => hends f (List.dropLast_subset _ hf)) _ hscreen
    have hview := congrArg Canvas.view
      (Canvas.frame_of_not_collapsed (c := (shown.frame area idle).1) isCollapsed_area presses)
    exact ⟨_, _, hscreen, hview, dragged_presses, htidy.held hview dragged_presses⟩
  · have hscreen := hrun [idle, presses, releases]
    have h := no_drag_left "traces.json" .standard frames horder hends _ hscreen
    rw [List.foldl_cons, List.foldl_cons, List.foldl_cons, List.foldl_nil] at hscreen h
    have hview := congrArg Canvas.view (Canvas.frame_of_not_collapsed
      (c := ((shown.frame area idle).1.frame area presses).1) isCollapsed_area releases)
    obtain ⟨hactive, hlast⟩ := h.2 _ hview
    exact ⟨_, _, hscreen, hview, hactive, hlast _ rfl rfl⟩

end

end Window

end ForceDiagram
