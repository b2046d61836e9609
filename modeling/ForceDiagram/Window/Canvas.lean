/-
ForceDiagram/Window/Canvas.lean

The canvas of a window, which shows a dataset and lets its nodes be dragged.

Each frame fits the view to the canvas, lets the pointer drag a node, advances
the layout by a step and paints the scene.  A canvas with a side of less than
one pixel does none of this, and one without nodes only says so.  A view for
another viewport forgets its gestures, so the canvas forgets the dragged node.
-/
import ForceDiagram.Paint.Grid
import ForceDiagram.Paint.Scene
import ForceDiagram.Scene.View
import ForceDiagram.Window.Pointer

namespace ForceDiagram

variable {F : Type} [Scalar F]

inductive Cursor where
  | arrow
  | grab
  | grabbing
deriving DecidableEq, Repr

/-- What a frame paints on the canvas. -/
structure CanvasPicture (F : Type) where
  background : List (Shape F)
  shapes : List (Shape F)
  cursor : Cursor

/-- A view, and the node that the pointer drags on it. -/
structure Handled (F : Type) where
  view : View F
  dragged : Option Nat

namespace Handled

/-- A drag begins with a press at `origin`: the node there is grabbed and follows
the pointer. -/
def begin (h : Handled F) (origin : Vec F) (place : Option (Vec F)) : Handled F :=
  match h.view.nodeAt? origin with
  | some node =>
    let grabbed := h.view.grab node origin
    ⟨(place.map (grabbed.dragMove node)).getD grabbed, some node⟩
  | none => h

/-- The dragged node follows the pointer. -/
def follow (h : Handled F) (place : Option (Vec F)) : Handled F :=
  match h.dragged, place with
  | some node, some p => { h with view := h.view.dragMove node p }
  | _, _ => h

/-- The dragged node is let go. -/
def letGo (h : Handled F) : Handled F :=
  match h.dragged with
  | some node => ⟨h.view.dragEnd node, none⟩
  | none => h

/-- What the pointer does, with its places as the scene knows them. -/
def handle (h : Handled F) (p : Handling F) : Handled F :=
  let moved :=
    match p.begins with
    | some origin => h.begin origin p.place
    | none => if p.drags then h.follow p.place else h
  if p.ends then moved.letGo else moved

/-- A step of the layout. -/
def advance (h : Handled F) : Handled F := { h with view := h.view.advance.1 }

/-- The cursor over a canvas, with the pointer at a place on it. -/
def cursor (h : Handled F) (hover : Option (Vec F)) : Cursor :=
  if h.dragged.isSome then .grabbing
  else if (hover.bind h.view.nodeAt?).isSome then .grab
  else .arrow

end Handled

structure Canvas (F : Type) where
  records : List Record
  config : Config F
  /-- The view of the records, from the first frame on. -/
  view : Option (View F)
  dragged : Option Nat

namespace Canvas

/-- The canvas of a dataset before its first frame. -/
def ofRecords (records : List Record) (config : Config F) : Canvas F :=
  ⟨records, config, none, none⟩

/-- Shows another dataset.  Whatever was dragged is not part of it. -/
def setRecords (c : Canvas F) (records : List Record) : Canvas F :=
  { c with records, view := c.view.map (·.setDataset records), dragged := none }

/-- The viewport of an area, in whole pixels. -/
def viewportOf (area : Rect F) : Viewport F :=
  ⟨Scalar.round area.width, Scalar.round area.height⟩

/-- Whether there is nothing to paint on. -/
def isCollapsed (viewport : Viewport F) : Bool := viewport.width < 1 || viewport.height < 1

/-- The view for a viewport. -/
def fit (c : Canvas F) (viewport : Viewport F) : Handled F :=
  match c.view with
  | some view =>
    let (view, changed) := view.resize viewport
    ⟨view, if changed then none else c.dragged⟩
  | none => ⟨.ofRecords c.records viewport c.config, c.dragged⟩

/-- The canvas with what a frame made of its view. -/
def keep (c : Canvas F) (h : Handled F) : Canvas F :=
  { c with view := some h.view, dragged := h.dragged }

/-- What a canvas without nodes says. -/
def emptyText (area : Rect F) : Shape F :=
  .text "Dataset has no edges. Drop a JSON dataset to show it." area.center 0 14 .gray

/-- What the pointer does, with its places as the scene knows them. -/
def localHandling (area : Rect F) (p : Handling F) : Handling F :=
  { p with
    begins := p.begins.map (· - area.min)
    place := p.place.map (· - area.min)
    hover := (p.hover.filter area.contains).map (· - area.min) }

/-- One frame of a canvas that shows nodes. -/
def live (c : Canvas F) (area : Rect F) (p : Handling F) (h : Handled F) :
    Canvas F × CanvasPicture F :=
  let p := localHandling area p
  let h := (h.handle p).advance
  (c.keep h,
   { background := Grid.background area
     shapes := h.view.scene.shapes area.min h.view.config
     cursor := h.cursor p.hover })

/-- One frame. -/
def frame (c : Canvas F) (area : Rect F) (p : Handling F) : Canvas F × CanvasPicture F :=
  if isCollapsed (viewportOf area) then (c, ⟨Grid.background area, [], .arrow⟩)
  else
    let h := c.fit (viewportOf area)
    if h.view.graph.nodes.isEmpty then
      (c.keep h, ⟨Grid.background area, [emptyText area], .arrow⟩)
    else c.live area p h

end Canvas

end ForceDiagram
