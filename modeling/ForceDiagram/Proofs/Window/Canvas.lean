/-
ForceDiagram/Proofs/Window/Canvas.lean

What a frame does to a canvas and to the view on it.

A frame does nothing to a canvas that is collapsed; it fits the view of another
to its area, and if there are nodes, the pointer acts on them and the layout
advances.  The view is never given another dataset in a frame: only a canvas that
is given other records does that, in the view and in itself at once.  So the view
of a canvas always shows the records of the canvas (`Canvas.Shows`).
-/
import ForceDiagram.Proofs.View.Coherence
import ForceDiagram.Window.Canvas

namespace ForceDiagram

variable {F : Type} [Scalar F]

/-! ### Views of a dataset -/

namespace View

/-- The view shows the given dataset, whether it is drawn yet or not. -/
def Shows (records : List Record) (v : View F) : Prop := ∃ stepped, v.Coherent records stepped

variable {records : List Record} {v : View F}

theorem shows_ofRecords (records : List Record) (viewport : Viewport F) (config : Config F) :
    (ofRecords records viewport config).Shows records :=
  ⟨false, coherent_ofRecords records viewport config⟩

theorem Shows.perform (h : v.Shows records) (action : Action F) :
    (v.perform action).1.Shows (action.given records) := by
  obtain ⟨stepped, h⟩ := h
  exact ⟨_, h.perform action⟩

theorem Shows.length_scene_nodes_le (h : v.Shows records) :
    v.scene.nodes.length ≤ v.graph.nodes.size := by
  obtain ⟨stepped, h⟩ := h
  have hscene := h.scene
  cases stepped with
  | false =>
    rw [hscene.1.nodes]
    exact Nat.zero_le _
  | true => rw [hscene.nodes, List.length_map, Array.length_toList]

/-- A node that is found under the pointer is there, as the scene shows no other. -/
theorem Shows.lt_size_of_nodeAt? (h : v.Shows records) {p : Vec F} {node : Nat}
    (hnode : v.nodeAt? p = some node) : node < v.graph.nodes.size := by
  obtain ⟨shape, hshape, rfl⟩ := Option.map_eq_some_iff.mp hnode
  have hmem := List.mem_of_mem_filter (List.mem_of_getLast? hshape)
  have hlt := (List.mem_zipIdx' hmem).1
  exact Nat.lt_of_lt_of_le hlt h.length_scene_nodes_le

end View

/-! ### What the pointer does -/

namespace Handled

/-- A drag that begins, or goes on. -/
def moved (h : Handled F) (p : Handling F) : Handled F :=
  match p.begins with
  | some origin => h.begin origin p.place
  | none => if p.drags then h.follow p.place else h

theorem handle_eq (h : Handled F) (p : Handling F) :
    h.handle p = if p.ends then (h.moved p).letGo else h.moved p := rfl

variable {records : List Record} {h : Handled F}

theorem shows_begin (hv : h.view.Shows records) (origin : Vec F) (place : Option (Vec F)) :
    (h.begin origin place).view.Shows records := by
  unfold begin
  split
  · next node _ =>
    have hgrab := hv.perform (.grab node origin)
    cases place with
    | none => exact hgrab
    | some p => exact hgrab.perform (.dragMove node p)
  · exact hv

theorem shows_follow (hv : h.view.Shows records) (place : Option (Vec F)) :
    (h.follow place).view.Shows records := by
  unfold follow
  split
  · next node p hdragged => exact hv.perform (.dragMove node p)
  · exact hv

theorem shows_moved (hv : h.view.Shows records) (p : Handling F) :
    (h.moved p).view.Shows records := by
  unfold moved
  split
  · exact shows_begin hv _ _
  · split
    · exact shows_follow hv _
    · exact hv

theorem shows_letGo (hv : h.view.Shows records) : h.letGo.view.Shows records := by
  unfold letGo
  split
  · next node hdragged => exact hv.perform (.dragEnd node)
  · exact hv

theorem shows_handle (hv : h.view.Shows records) (p : Handling F) :
    (h.handle p).view.Shows records := by
  rw [handle_eq]
  split
  · exact shows_letGo (shows_moved hv p)
  · exact shows_moved hv p

theorem shows_advance (hv : h.view.Shows records) : h.advance.view.Shows records :=
  hv.perform .advance

end Handled

/-! ### Frames of a canvas -/

namespace Canvas

variable {c : Canvas F} {area : Rect F}

/-- The view on a canvas, if there is one, shows the records of the canvas. -/
def Shows (c : Canvas F) : Prop := ∀ v, c.view = some v → v.Shows c.records

/-- What a frame does to a canvas on which something can be painted. -/
def handled (c : Canvas F) (area : Rect F) (p : Handling F) : Handled F :=
  let h := c.fit (viewportOf area)
  if h.view.graph.nodes.isEmpty then h else (h.handle (localHandling area p)).advance

theorem frame_of_collapsed (h : isCollapsed (viewportOf area) = true) (p : Handling F) :
    (c.frame area p).1 = c := by
  rw [frame, if_pos h]

theorem frame_of_not_collapsed (h : isCollapsed (viewportOf area) = false) (p : Handling F) :
    (c.frame area p).1 = c.keep (c.handled area p) := by
  rw [frame, if_neg (by simp [h]), handled]
  dsimp only
  split <;> rfl

theorem shows_fit (h : c.Shows) (viewport : Viewport F) :
    (c.fit viewport).view.Shows c.records := by
  unfold fit
  split
  · next v hv => exact (h v hv).perform (.resize viewport)
  · exact View.shows_ofRecords _ _ _

theorem shows_ofRecords (records : List Record) (config : Config F) :
    (ofRecords records config).Shows := nofun

theorem Shows.setRecords (h : c.Shows) (records : List Record) : (c.setRecords records).Shows := by
  intro v hv
  obtain ⟨old, hold, rfl⟩ := Option.map_eq_some_iff.mp hv
  exact (h old hold).perform (.setDataset records)

theorem Shows.frame (h : c.Shows) (area : Rect F) (p : Handling F) :
    (c.frame area p).1.Shows := by
  rcases hcollapsed : isCollapsed (viewportOf area) with - | -
  · rw [frame_of_not_collapsed hcollapsed]
    rintro v hv
    obtain rfl := Option.some.inj hv
    show (c.handled area p).view.Shows c.records
    unfold handled
    dsimp only
    split
    · exact shows_fit h _
    · exact Handled.shows_advance (Handled.shows_handle (shows_fit h _) _)
  · rw [frame_of_collapsed hcollapsed]
    exact h

theorem records_frame (c : Canvas F) (area : Rect F) (p : Handling F) :
    (c.frame area p).1.records = c.records := by
  rcases hcollapsed : isCollapsed (viewportOf area) with - | -
  · rw [frame_of_not_collapsed hcollapsed]
    rfl
  · rw [frame_of_collapsed hcollapsed]

end Canvas

end ForceDiagram
