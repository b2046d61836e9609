/-
ForceDiagram/Window/Session.lean

A window that somebody uses: the files there are, the loads that are under way,
the pointer, and the size of the screen.

A file is read when it is asked for.  What it holds arrives with the next frame
that looks for it, unless the load is held up; a load can also be lost, and then
it never arrives.  Both concern the request in flight.

The pointer acts on what the last frame showed: a press is on the canvas, and
the button of the failure screen can be clicked, only where they were to be seen.
-/
import ForceDiagram.Window.Basic

namespace ForceDiagram

variable {F : Type} [Scalar F] {home : List String}

/-- How the load in flight fares in a frame. -/
inductive Transit where
  | prompt
  | held
  | lost
deriving DecidableEq, Repr

structure Session (F : Type) (home : List String := ["work"]) where
  files : Files home
  size : Vec F
  pointer : Pointer F
  window : Window F
  /-- What has been loaded for requests, or that it was lost. -/
  mail : List (Nat × Delivery)
  /-- What the last frame showed. -/
  picture : Picture F
  /-- Where it showed it. -/
  shown : Rect F

/-- What happens in one frame of a session. -/
structure SessionFrame (F : Type) (home : List String := ["work"]) where
  files : Option (Files home)
  size : Option (Vec F)
  drops : List Dropped
  transit : Transit
  events : List (PointerEvent F)

namespace Session

/-- What an order brings. -/
def fetch (files : Files home) (order : Order) : Nat × Delivery :=
  (order.request, .arrived ((Dataset.load files order.path).mapError .unloaded))

/-- A session before its first frame. -/
def start (files : Files home) (path : String) (config : Config F) (size : Vec F) :
    Session F home :=
  let (window, order) := Window.start path config
  ⟨files, size, .unseen, window, [fetch files order], .blank, ⟨.zero, .zero⟩⟩

/-- What has become of a request. -/
def delivery (mail : List (Nat × Delivery)) (request : Nat) : Delivery :=
  match mail.find? fun m => m.1 == request with
  | some m => m.2
  | none => .awaited

/-- What a window finds if the given request is held up. -/
def holding (held : Option Nat) (mail : List (Nat × Delivery)) : Mail := fun request =>
  if held = some request then .awaited else delivery mail request

/-- A length as a screen is divided: in whole thirty-seconds of a point. -/
def snapped (x : F) : F := Scalar.round (x * 32) / 32

/-- The area of the canvas, which covers the screen. -/
def area (s : Session F home) : Rect F := ⟨.zero, ⟨snapped s.size.x, snapped s.size.y⟩⟩

/-- Where the last frame showed a canvas. -/
def shownCanvas (s : Session F home) : Option (Rect F) :=
  match s.picture with
  | .canvas _ => some s.shown
  | _ => none

/-- The texts that the last frame showed on a screen without a canvas. -/
def texts (s : Session F home) : List String := s.picture.texts s.shown

/-- Whether there is a button to be clicked: the last frame showed it, and it has
not been clicked since. -/
def offersRetry (s : Session F home) : Bool :=
  match s.window.screen with
  | .failed _ => s.picture.offersRetry s.shown
  | _ => false

/-- The session with other files and another size of the screen. -/
def arranged (s : Session F home) (files : Option (Files home)) (size : Option (Vec F)) :
    Session F home :=
  { s with files := files.getD s.files, size := size.getD s.size }

/-- Loads what the window has asked for. -/
def ordered (s : Session F home) (orders : List Order) : Session F home :=
  { s with mail := orders.map (fetch s.files) ++ s.mail }

/-- The load in flight is lost, once the window has taken what is dropped. -/
def losing (s : Session F home) (drops : List Dropped) : Session F home :=
  match (s.window.takeAll drops).1.inFlight? with
  | some request => { s with mail := (request, .lost) :: s.mail }
  | none => s

/-- The request that is held up in a frame. -/
def heldUp (s : Session F home) (f : SessionFrame F home) : Option Nat :=
  if f.transit = .held then (s.window.takeAll f.drops).1.inFlight? else none

/-- One frame. -/
def frame (s : Session F home) (f : SessionFrame F home) : Session F home :=
  let s := s.arranged f.files f.size
  let s := s.ordered (s.window.takeAll f.drops).2
  let s := if f.transit = .lost then s.losing f.drops else s
  let (pointer, handling) := s.pointer.frame s.shownCanvas f.events
  let (window, picture, _) := s.window.frame (holding (s.heldUp f) s.mail)
    ⟨f.drops, s.area, handling, false⟩
  { s with pointer, window, picture, shown := s.area }

/-- A frame a number of times.  Files and size are there even if that is zero. -/
def frames (s : Session F home) (f : SessionFrame F home) : Nat → Session F home
  | 0 => s.arranged f.files f.size
  | times + 1 => (s.frame f).frames f times

/-- The button of the failure screen is clicked, and the pointer leaves. -/
def click : List (PointerEvent F) :=
  [.press Picture.buttonPlace .primary, .release Picture.buttonPlace .primary, .leave]

/-- Puts other files in place and clicks the button of the failure screen, if
there is one to be clicked; otherwise no frame goes by. -/
def retry (s : Session F home) (files : Option (Files home)) : Session F home :=
  let s := s.arranged files none
  if s.offersRetry then
    let (pointer, handling) := s.pointer.frame s.shownCanvas click
    let (window, picture, orders) := s.window.frame (holding none s.mail)
      ⟨[], s.area, handling, true⟩
    { (s.ordered orders) with pointer, window, picture, shown := s.area }
  else s

end Session

end ForceDiagram
