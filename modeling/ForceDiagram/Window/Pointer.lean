/-
ForceDiagram/Window/Pointer.lean

From pointer events to drags on the canvas.

A press on the canvas can become a click or a drag, and which of the two is open
until the pointer has moved away from the press.  From the first frame after
that in which a button is still down the canvas is being dragged, wherever the
pointer goes, until a button is released.  A pointer that leaves the window
loses its hold: the drag lasts until the release, but has no place any more.

Design.  Events of a frame first move the pointer and its buttons; only then is
it decided, once for the frame, whether the canvas is being dragged.  What the
canvas is told is a `Handling`: which of the three parts of a drag fall into the
frame, and where the pointer is.
-/
import ForceDiagram.Plane.Rect

namespace ForceDiagram

variable {F : Type} [Scalar F]

inductive Button where
  | primary
  | secondary
deriving DecidableEq, Repr

inductive PointerEvent (F : Type) where
  | move (place : Vec F)
  | press (place : Vec F) (button : Button)
  | release (place : Vec F) (button : Button)
  /-- The pointer leaves the window. -/
  | leave

/-- What a frame's events do to the canvas. -/
structure Handling (F : Type) where
  /-- Where the press was, if a drag with the primary button begins. -/
  begins : Option (Vec F)
  drags : Bool
  ends : Bool
  /-- Where a drag takes place. -/
  place : Option (Vec F)
  /-- Where the pointer is, unless it has left the window. -/
  hover : Option (Vec F)

structure Pointer (F : Type) where
  place : Option (Vec F)
  down : List Button
  /-- Where the last button was pressed, while it is down. -/
  origin : Option (Vec F)
  /-- Whether the pointer has moved too far from the press for a click. -/
  strayed : Bool
  /-- Whether the press was on the canvas and still holds it. -/
  armed : Bool
  dragging : Bool

namespace Pointer

/-- A pointer that has not been seen yet. -/
def unseen : Pointer F := ⟨none, [], none, false, false, false⟩

/-- How far a pointer may move from the press for a click. -/
def clickReach : F := 6

/-- How far outside the canvas a press still counts as on it. -/
def margin : F := 5

/-- Whether a press at a place is on an area. -/
def hits (area : Option (Rect F)) (place : Option (Vec F)) : Bool :=
  match area, place with
  | some area, some p => area.distanceSq p ≤ (margin * margin : F)
  | _, _ => false

/-- A pointer at the start of a frame.  It holds the canvas only if it was in the
window and had a button down. -/
def renewed (p : Pointer F) : Pointer F :=
  { p with armed := p.armed && p.place.isSome && !p.down.isEmpty }

/-- A pointer in the middle of a frame. -/
structure Passage (F : Type) where
  pointer : Pointer F
  /-- The last place in the frame, which a pointer that leaves does not lose. -/
  place : Option (Vec F)
  pressed : Bool
  released : Bool
  clicked : Bool

/-- A pointer before the events of a frame. -/
def Passage.ofPointer (p : Pointer F) : Passage F := ⟨p, p.place, false, false, false⟩

/-- Whether any button is down or has been released in the frame. -/
def Passage.isBusy (s : Passage F) : Bool := !s.pointer.down.isEmpty || s.released

/-- A pointer after one more event. -/
def Passage.after (s : Passage F) : PointerEvent F → Passage F
  | .move p =>
    let strayed := s.pointer.strayed || s.pointer.origin.any fun o => clickReach < (o - p).length
    { s with pointer := { s.pointer with place := some p, strayed }, place := some p }
  | .press p button =>
    { s with
      pointer :=
        { s.pointer with
          place := some p
          origin := some p
          strayed := false
          down := button :: s.pointer.down.erase button }
      place := some p
      pressed := true }
  | .release p button =>
    { s with
      pointer :=
        { s.pointer with place := some p, origin := none, down := s.pointer.down.erase button }
      place := some p
      clicked := s.clicked || s.isBusy && !s.pointer.strayed
      released := true }
  | .leave => { s with pointer := { s.pointer with place := none } }

/-- Whether what the pointer does can only be a drag. -/
def Passage.isDrag (s : Passage F) : Bool :=
  s.isBusy && s.pointer.strayed && !s.pressed && !s.clicked

/-- Presses on the canvas arm the pointer; a release ends what it was at. -/
def armedAfter (hit : Bool) (p : Pointer F) : PointerEvent F → Pointer F
  | .press _ _ => { p with armed := p.armed || hit }
  | .release _ _ => { p with armed := false, dragging := false }
  | _ => p

/-- The pointer after a frame, and what its events do to the canvas, which the
frame before showed in the given area, if it did. -/
def frame (p : Pointer F) (area : Option (Rect F)) (events : List (PointerEvent F)) :
    Pointer F × Handling F :=
  let s := events.foldl Passage.after (.ofPointer p.renewed)
  let armed := events.foldl (armedAfter (hits area s.place)) s.pointer
  let dragging := armed.dragging || armed.armed && s.isDrag
  let begins := dragging && !p.dragging && armed.down.contains .primary
  let ends := p.dragging && !dragging
  ({ armed with dragging },
   { begins := if begins then armed.origin.or s.place else none
     drags := dragging
     ends
     place := if armed.armed || ends then s.place else none
     hover := armed.place })

end Pointer

end ForceDiagram
