/-
ForceDiagram/Window/Basic.lean

A window: it loads a dataset, shows it, and takes other datasets dropped on it.

There are three screens.  A window starts on the loading screen; what has been
loaded decides whether it goes on with the canvas or with the screen that
reports a failure.  From the canvas it never goes back: a dataset that cannot be
read then changes nothing.

Design.  Loading is not part of a window.  Whoever runs it takes the `Order`s it
gives, and tells it in each frame what has arrived for the requests that it
waits for.  Requests are numbered in the order in which they are made, files
dropped with their content included, although those need no loading.  Within a
frame the window takes what is dropped, then looks whether the file last dropped
by its path has arrived, and then draws the screen it is at; what the loading
screen waits for takes effect only after that.
-/
import ForceDiagram.Dataset.Loading
import ForceDiagram.Window.Canvas

namespace ForceDiagram

variable {F : Type} [Scalar F]

/-- What keeps a dataset from being shown. -/
inductive Failure where
  | unloaded (error : Dataset.LoadError)
  | malformed (error : Dataset.ReadError)
  /-- Nobody is loading it any more. -/
  | lost

/-- The wording of a failure. -/
def Failure.message : Failure → String
  | .unloaded error => causeLine error.causes
  | .malformed error => causeLine error.causes
  | .lost => "Background load worker disconnected"

/-- What a request comes to. -/
abbrev Outcome := Except Failure (List Record)

/-- What has become of a request so far. -/
inductive Delivery where
  | awaited
  | arrived (outcome : Outcome)
  | lost

/-- What a request has come to, if anything. -/
def Delivery.outcome? : Delivery → Option Outcome
  | .awaited => none
  | .arrived outcome => some outcome
  | .lost => some (.error .lost)

/-- What has become of all requests. -/
abbrev Mail := Nat → Delivery

/-- A file to be loaded for a request. -/
structure Order where
  request : Nat
  path : String
deriving DecidableEq, Repr

/-- A file dropped on a window: its content, its path, or both. -/
structure Dropped where
  content : Option (List UInt8)
  path : Option String

inductive Screen (F : Type) where
  | loading (request : Nat)
  | ready (canvas : Canvas F)
  | failed (failure : Failure)

/-- What a frame shows. -/
inductive Picture (F : Type) where
  /-- No frame has been drawn yet. -/
  | blank
  | loading
  | failed (failure : Failure)
  | canvas (picture : CanvasPicture F)

namespace Picture

/-- Where the button of the failure screen is. -/
def buttonPlace : Vec F := ⟨8, 90⟩

/-- The lines of a screen without a canvas, each with the place where it begins.
The last line of the failure screen is its button. -/
def lines : Picture F → List (Vec F × String)
  | .loading => [(⟨8, 128⟩, "Loading trace graph...")]
  | .failed failure =>
    [(⟨8, 8⟩, "Failed to load trace graph"), (⟨8, 38⟩, failure.message),
      (⟨8, 62⟩, "Drop a JSON dataset onto this window, or retry."), (buttonPlace, "Retry")]
  | _ => []

/-- The texts of a screen without a canvas that can be seen in an area: a line
that would begin outside is left out. -/
def texts (p : Picture F) (area : Rect F) : List String :=
  (p.lines.filter fun line => area.contains line.1).map (·.2)

/-- Whether the button of the failure screen can be seen in an area. -/
def offersRetry (p : Picture F) (area : Rect F) : Bool :=
  match p with
  | .failed _ => area.contains buttonPlace
  | _ => false

/-- What is painted behind the scene, the area itself first. -/
def background : Picture F → List (Shape F)
  | .canvas picture => picture.background
  | _ => []

/-- What is painted of the scene. -/
def shapes : Picture F → List (Shape F)
  | .canvas picture => picture.shapes
  | _ => []

def cursor : Picture F → Cursor
  | .canvas picture => picture.cursor
  | _ => .arrow

end Picture

structure Window (F : Type) where
  /-- What a retry loads. -/
  dataPath : String
  config : Config F
  screen : Screen F
  /-- The request for a file dropped by its path. -/
  reload : Option Nat
  /-- The number of requests made so far. -/
  requests : Nat

/-- What happens to a window in one frame. -/
structure WindowFrame (F : Type) where
  drops : List Dropped
  area : Rect F
  handling : Handling F
  /-- Whether the button of the failure screen is clicked. -/
  retries : Bool

namespace Window

/-- A new window, and the load it begins with. -/
def start (path : String) (config : Config F) : Window F × Order :=
  (⟨path, config, .loading 0, none, 1⟩, ⟨0, path⟩)

/-- What a request came to takes effect. -/
def apply (w : Window F) : Outcome → Window F
  | .ok records =>
    match w.screen with
    | .ready canvas => { w with screen := .ready (canvas.setRecords records) }
    | _ => { w with screen := .ready (.ofRecords records w.config) }
  | .error failure =>
    match w.screen with
    | .ready _ => w
    | _ => { w with screen := .failed failure }

/-- The dataset in the content of a dropped file, whatever its encoding. -/
def outcomeOf (content : List UInt8) : Outcome :=
  (Dataset.read (Utf8.decodeLossy content)).mapError .malformed

/-- Takes a dropped file.  Content takes effect at once, a path has to be loaded
and puts an earlier one out of mind. -/
def take (w : Window F) (d : Dropped) : Window F × List Order :=
  match d.content, d.path with
  | some content, _ => ({ w with requests := w.requests + 1 }.apply (outcomeOf content), [])
  | none, some path =>
    ({ w with dataPath := path, reload := some w.requests, requests := w.requests + 1 },
     [⟨w.requests, path⟩])
  | none, none => (w, [])

/-- Takes dropped files in their order. -/
def takeAll (w : Window F) : List Dropped → Window F × List Order
  | [] => (w, [])
  | d :: ds =>
    let (w, orders) := w.take d
    let (w, further) := w.takeAll ds
    (w, orders ++ further)

/-- Looks for the file last dropped by its path. -/
def poll (w : Window F) (mail : Mail) : Window F :=
  match w.reload.bind fun request => (mail request).outcome? with
  | some outcome => { w with reload := none }.apply outcome
  | none => w

/-- Loads the data path again. -/
def retry (w : Window F) : Window F × List Order :=
  ({ w with screen := .loading w.requests, requests := w.requests + 1 },
   [⟨w.requests, w.dataPath⟩])

/-- Draws the screen.  What the loading screen waits for takes effect after it
has been drawn. -/
def draw (w : Window F) (mail : Mail) (area : Rect F) (handling : Handling F)
    (retries : Bool) : Window F × Picture F × List Order :=
  match w.screen with
  | .loading request =>
    match (mail request).outcome? with
    | some outcome => (w.apply outcome, .loading, [])
    | none => (w, .loading, [])
  | .failed failure =>
    if retries then (w.retry.1, .failed failure, w.retry.2) else (w, .failed failure, [])
  | .ready canvas =>
    let (canvas, picture) := canvas.frame area handling
    ({ w with screen := .ready canvas }, .canvas picture, [])

/-- One frame: the window after it, what it shows, and the files it wants. -/
def frame (w : Window F) (mail : Mail) (f : WindowFrame F) :
    Window F × Picture F × List Order :=
  let (w, dropped) := w.takeAll f.drops
  let (w, picture, retried) := (w.poll mail).draw mail f.area f.handling f.retries
  (w, picture, dropped ++ retried)

/-- The request that is being loaded: the file last dropped, else the first. -/
def inFlight? (w : Window F) : Option Nat :=
  match w.reload, w.screen with
  | some request, _ => some request
  | none, .loading request => some request
  | none, _ => none

end Window

end ForceDiagram
