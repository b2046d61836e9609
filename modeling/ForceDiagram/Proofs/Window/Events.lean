/-
ForceDiagram/Proofs/Window/Events.lean

A window's frames, taken apart into single events.

In a frame a window takes files, looks for a reload and draws its screen, and
what each of these does depends on those before it.  Here a frame is a list of
`Event`s, each of which changes the window in one way (`frame_eq_afterAll`), and
so is a run of frames (`run_eq_afterAll`).  An event never happens to a window it
does not fit: nothing arrives that is not waited for, and only the screen there
is can be drawn or clicked at (`possible_runEvents`).  So what every event that
fits keeps is kept by every run.

`moments` lists the events of a run together with the windows they happen to.
Two things can be read off a moment: which request comes into effect, and with
what outcome (`applied?`), and which request is made (`requested?`).
-/
import ForceDiagram.Window.Basic

namespace ForceDiagram

variable {F : Type} [Scalar F]

namespace Window

/-- What can happen to a window. -/
inductive Event (F : Type) where
  /-- A file is dropped with its content, -/
  | dropContent (content : List UInt8)
  /-- or by its path. -/
  | dropPath (path : String)
  /-- The file last dropped by its path has come to something, -/
  | reloaded (outcome : Outcome)
  /-- or what the loading screen waits for has. -/
  | loaded (outcome : Outcome)
  /-- The button of the failure screen is clicked. -/
  | retry
  /-- The canvas is drawn. -/
  | draw (area : Rect F) (handling : Handling F)

/-- The window once its canvas is drawn, if that is its screen. -/
def drawn (w : Window F) (area : Rect F) (handling : Handling F) : Window F :=
  match w.screen with
  | .ready canvas => { w with screen := .ready (canvas.frame area handling).1 }
  | _ => w

/-- The window after an event. -/
def after (w : Window F) : Event F → Window F
  | .dropContent content => { w with requests := w.requests + 1 }.apply (outcomeOf content)
  | .dropPath path =>
    { w with dataPath := path, reload := some w.requests, requests := w.requests + 1 }
  | .reloaded outcome => { w with reload := none }.apply outcome
  | .loaded outcome => w.apply outcome
  | .retry => w.retry.1
  | .draw area handling => w.drawn area handling

def afterAll (w : Window F) (events : List (Event F)) : Window F := events.foldl after w

/-! ### Frames as events -/

/-- What a dropped file is to a window, unless it is nothing. -/
def dropEvent? (d : Dropped) : Option (Event F) :=
  match d.content, d.path with
  | some content, _ => some (.dropContent content)
  | none, some path => some (.dropPath path)
  | none, none => none

/-- What a look for the reload finds. -/
def pollEvents (w : Window F) (mail : Mail) : List (Event F) :=
  ((w.reload.bind fun request => (mail request).outcome?).map Event.reloaded).toList

/-- What happens as the screen is drawn. -/
def drawEvents (w : Window F) (mail : Mail) (f : WindowFrame F) : List (Event F) :=
  match w.screen with
  | .loading request => ((mail request).outcome?.map Event.loaded).toList
  | .failed _ => if f.retries then [.retry] else []
  | .ready _ => [.draw f.area f.handling]

/-- What happens in a frame. -/
def frameEvents (w : Window F) (mail : Mail) (f : WindowFrame F) : List (Event F) :=
  let dropped := f.drops.filterMap dropEvent?
  let polled := (w.afterAll dropped).pollEvents mail
  dropped ++ polled ++ (w.afterAll (dropped ++ polled)).drawEvents mail f

/-- The window after frames, each with the mail that is there. -/
def run (w : Window F) (frames : List (Mail × WindowFrame F)) : Window F :=
  frames.foldl (fun w f => (w.frame f.1 f.2).1) w

/-- What happens in a run of frames. -/
def runEvents (w : Window F) : List (Mail × WindowFrame F) → List (Event F)
  | [] => []
  | f :: rest => w.frameEvents f.1 f.2 ++ (w.frame f.1 f.2).1.runEvents rest

theorem afterAll_append (w : Window F) (events events' : List (Event F)) :
    w.afterAll (events ++ events') = (w.afterAll events).afterAll events' := List.foldl_append

theorem takeAll_eq_afterAll (w : Window F) (drops : List Dropped) :
    (w.takeAll drops).1 = w.afterAll (drops.filterMap dropEvent?) := by
  induction drops generalizing w with
  | nil => rfl
  | cons d rest ih =>
    have htake : (w.take d).1 = w.afterAll (dropEvent? d).toList := by
      obtain ⟨content, path⟩ := d
      cases content <;> cases path <;> rfl
    rw [takeAll, ih, htake, ← afterAll_append, List.filterMap_cons]
    cases (dropEvent? d : Option (Event F)) <;> rfl

theorem poll_eq_afterAll (w : Window F) (mail : Mail) :
    w.poll mail = w.afterAll (w.pollEvents mail) := by
  unfold poll pollEvents
  split
  · next houtcome =>
    rw [houtcome]
    rfl
  · next hnone =>
    rw [hnone]
    rfl

theorem draw_eq_afterAll (w : Window F) (mail : Mail) (f : WindowFrame F) :
    (w.draw mail f.area f.handling f.retries).1 = w.afterAll (w.drawEvents mail f) := by
  unfold draw drawEvents
  rcases hscreen : w.screen with request | canvas | failure
  · rcases houtcome : (mail request).outcome? with - | outcome
    · simp only [houtcome]
      rfl
    · simp only [houtcome]
      rfl
  · simp [afterAll, after, drawn, hscreen]
  · rcases f.retries with - | - <;> rfl

/-- A frame is its events, one after the other. -/
theorem frame_eq_afterAll (w : Window F) (mail : Mail) (f : WindowFrame F) :
    (w.frame mail f).1 = w.afterAll (w.frameEvents mail f) := by
  rw [frameEvents, afterAll_append, afterAll_append, ← draw_eq_afterAll, ← poll_eq_afterAll,
    ← takeAll_eq_afterAll]
  rfl

theorem run_eq_afterAll (w : Window F) (frames : List (Mail × WindowFrame F)) :
    w.run frames = w.afterAll (w.runEvents frames) := by
  induction frames generalizing w with
  | nil => rfl
  | cons f rest ih =>
    rw [runEvents, afterAll_append, ← frame_eq_afterAll, ← ih]
    rfl

/-! ### Events that fit -/

/-- Whether an event can happen to a window. -/
def Event.Fits (w : Window F) : Event F → Prop
  | .reloaded _ => w.reload.isSome
  | .loaded _ => ∃ request, w.screen = .loading request
  | .retry => ∃ failure, w.screen = .failed failure
  | .draw _ _ => ∃ canvas, w.screen = .ready canvas
  | _ => True

/-- Whether events can happen to a window, one after the other. -/
def Possible (w : Window F) : List (Event F) → Prop
  | [] => True
  | e :: rest => e.Fits w ∧ (w.after e).Possible rest

theorem possible_append {w : Window F} {events events' : List (Event F)} :
    w.Possible (events ++ events') ↔
      w.Possible events ∧ (w.afterAll events).Possible events' := by
  induction events generalizing w with
  | nil => simp [Possible, afterAll]
  | cons e rest ih => exact (and_congr_right fun _ => ih).trans and_assoc.symm

theorem possible_of_forall {w : Window F} {events : List (Event F)}
    (h : ∀ e ∈ events, ∀ w : Window F, e.Fits w) : w.Possible events := by
  induction events generalizing w with
  | nil => trivial
  | cons e rest ih =>
    exact ⟨h e List.mem_cons_self w, ih fun e he => h e (List.mem_cons_of_mem _ he)⟩

omit [Scalar F] in
/-- Dropped files fit every window. -/
theorem fits_of_mem_drops {drops : List Dropped} {e : Event F}
    (he : e ∈ drops.filterMap dropEvent?) (w : Window F) : e.Fits w := by
  obtain ⟨d, -, hd⟩ := List.mem_filterMap.mp he
  unfold dropEvent? at hd
  split at hd
  · cases hd
    trivial
  · cases hd
    trivial
  · cases hd

theorem possible_pollEvents (w : Window F) (mail : Mail) : w.Possible (w.pollEvents mail) := by
  unfold pollEvents
  rcases hreload : w.reload with - | request
  · trivial
  · rcases houtcome : (mail request).outcome? with - | outcome
    · simp [houtcome, Possible]
    · simp [houtcome, Possible, Event.Fits, hreload]

theorem possible_drawEvents (w : Window F) (mail : Mail) (f : WindowFrame F) :
    w.Possible (w.drawEvents mail f) := by
  unfold drawEvents
  rcases hscreen : w.screen with request | canvas | failure
  · rcases houtcome : (mail request).outcome? with - | outcome
    · simp only [houtcome]
      trivial
    · simp only [houtcome]
      exact ⟨⟨request, hscreen⟩, trivial⟩
  · exact ⟨⟨canvas, hscreen⟩, trivial⟩
  · rcases f.retries with - | -
    · trivial
    · exact ⟨⟨failure, hscreen⟩, trivial⟩

theorem possible_frameEvents (w : Window F) (mail : Mail) (f : WindowFrame F) :
    w.Possible (w.frameEvents mail f) := by
  rw [frameEvents, possible_append, possible_append]
  exact ⟨⟨possible_of_forall fun e => fits_of_mem_drops, possible_pollEvents _ mail⟩,
    possible_drawEvents _ mail f⟩

/-- What happens in a run can happen. -/
theorem possible_runEvents (w : Window F) (frames : List (Mail × WindowFrame F)) :
    w.Possible (w.runEvents frames) := by
  induction frames generalizing w with
  | nil => trivial
  | cons f rest ih =>
    rw [runEvents, possible_append, ← frame_eq_afterAll]
    exact ⟨possible_frameEvents w f.1 f.2, ih _⟩

theorem possible_before {w : Window F} {events : List (Event F)} (h : w.Possible events)
    {before : List (Event F)} (hbefore : before <+: events) : w.Possible before := by
  obtain ⟨rest, rfl⟩ := hbefore
  exact (possible_append.mp h).1

/-- An event that happens fits the window that those before it have made. -/
theorem fits_next {w : Window F} {events : List (Event F)} (h : w.Possible events)
    {before : List (Event F)} {e : Event F} (hbefore : before ++ [e] <+: events) :
    e.Fits (w.afterAll before) :=
  (possible_append.mp (possible_before h hbefore)).2.1

/-! ### Moments -/

/-- An event, and the window it happens to. -/
structure Moment (F : Type) where
  window : Window F
  event : Event F

namespace Moment

/-- The window after the event. -/
def next (m : Moment F) : Window F := m.window.after m.event

/-- The request that comes into effect, and its outcome. -/
def applied? (m : Moment F) : Option (Nat × Outcome) :=
  match m.event with
  | .dropContent content => some (m.window.requests, outcomeOf content)
  | .reloaded outcome => m.window.reload.map (·, outcome)
  | .loaded outcome =>
    match m.window.screen with
    | .loading request => some (request, outcome)
    | _ => none
  | _ => none

/-- The number of the request that is made. -/
def requested? (m : Moment F) : Option Nat :=
  match m.event with
  | .dropContent _ | .dropPath _ | .retry => some m.window.requests
  | _ => none

end Moment

/-- What happens, with the windows it happens to. -/
def moments (w : Window F) : List (Event F) → List (Moment F)
  | [] => []
  | e :: rest => ⟨w, e⟩ :: (w.after e).moments rest

/-- The moment of an event that happens after the given ones. -/
def momentAfter (w : Window F) (before : List (Event F)) (e : Event F) : Moment F :=
  ⟨w.afterAll before, e⟩

/-- The requests that came into effect, with their outcomes. -/
def applications (past : List (Moment F)) : List (Nat × Outcome) :=
  past.filterMap Moment.applied?

/-- What every event that fits keeps, given those before it, is kept by all that
can happen. -/
theorem moments_induction {P : List (Moment F) → Window F → Prop}
    (hstep : ∀ past w e, e.Fits w → P past w → P (past ++ [⟨w, e⟩]) (w.after e))
    {past : List (Moment F)} {w : Window F} (hstart : P past w) {events : List (Event F)}
    (hpossible : w.Possible events) : P (past ++ w.moments events) (w.afterAll events) := by
  induction events generalizing past w with
  | nil =>
    rw [moments, List.append_nil]
    exact hstart
  | cons e rest ih =>
    have hrest := ih (hstep past w e hpossible.1 hstart) hpossible.2
    rwa [List.append_assoc] at hrest

end Window

end ForceDiagram
