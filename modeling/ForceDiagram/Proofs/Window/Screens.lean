/-
ForceDiagram/Proofs/Window/Screens.lean

Which screen a window is at, and what is on its canvas.

Screens change only as requests come into effect, and at the button of the
failure screen.  A dataset opens the canvas or replaces the one on it, in the
records and in the view alike; a failure is reported where there is no canvas,
and changes nothing where there is one.  So the canvas of a window shows the
dataset that came into effect last (`OnDisplay`), and a window that has a canvas
keeps it.
-/
import ForceDiagram.Proofs.Window.Canvas
import ForceDiagram.Proofs.Window.Requests

namespace ForceDiagram

variable {F : Type} [Scalar F]

namespace Window

variable {w : Window F} {e : Event F} {past : List (Moment F)}

/-! ### What comes into effect -/

/-- The screen that an outcome opens where there is no canvas. -/
def opened (config : Config F) : Outcome → Screen F
  | .ok records => .ready (.ofRecords records config)
  | .error failure => .failed failure

theorem screen_apply_of_ready_ok {canvas : Canvas F} (h : w.screen = .ready canvas)
    (records : List Record) :
    (w.apply (.ok records)).screen = .ready (canvas.setRecords records) := by
  simp only [apply, h]

theorem apply_of_ready_error {canvas : Canvas F} (h : w.screen = .ready canvas)
    (failure : Failure) : w.apply (.error failure) = w := by
  simp only [apply, h]

theorem screen_apply_of_not_ready (h : ∀ canvas, w.screen ≠ .ready canvas) (outcome : Outcome) :
    (w.apply outcome).screen = opened w.config outcome := by
  unfold apply
  split
  · split
    · next canvas hcanvas => exact absurd hcanvas (h canvas)
    · rfl
  · split
    · next canvas hcanvas => exact absurd hcanvas (h canvas)
    · rfl

/-- The screen after an outcome depends on the screen and the configuration. -/
theorem screen_apply_congr (w w' : Window F) (hscreen : w'.screen = w.screen)
    (hconfig : w'.config = w.config) (outcome : Outcome) :
    (w'.apply outcome).screen = (w.apply outcome).screen := by
  unfold apply
  rw [hscreen, hconfig]
  split <;> split <;> simp_all

theorem screen_after_of_applied {a : Nat × Outcome} (h : (Moment.mk w e).applied? = some a) :
    (w.after e).screen = (w.apply a.2).screen := by
  obtain ⟨content, rfl, rfl⟩ | ⟨-, rfl⟩ | ⟨-, rfl⟩ := applied?_cases h
  · exact screen_apply_congr w { w with requests := w.requests + 1 } rfl rfl _
  · exact screen_apply_congr w { w with reload := none } rfl rfl _
  · rfl

/-- Where nothing comes into effect, a window stays at its screen, draws it, or
begins another load. -/
theorem screen_after_of_unapplied (hfits : e.Fits w) (h : (Moment.mk w e).applied? = none) :
    (w.after e).screen = w.screen ∨
      (∃ canvas area handling, w.screen = .ready canvas ∧
        (w.after e).screen = .ready (canvas.frame area handling).1) ∨
      ∃ failure, w.screen = .failed failure ∧ (w.after e).screen = .loading w.requests := by
  cases e with
  | dropContent content => cases h
  | dropPath path => exact .inl rfl
  | reloaded outcome =>
    obtain ⟨request, hrequest⟩ := Option.isSome_iff_exists.mp hfits
    simp [Moment.applied?, hrequest] at h
  | loaded outcome =>
    obtain ⟨request, hrequest⟩ := hfits
    simp [Moment.applied?, hrequest] at h
  | retry =>
    obtain ⟨failure, hfailure⟩ := hfits
    exact .inr (.inr ⟨failure, hfailure, rfl⟩)
  | draw area handling =>
    obtain ⟨canvas, hcanvas⟩ := hfits
    exact .inr (.inl ⟨canvas, area, handling, hcanvas, by rw [after, drawn_of_ready hcanvas]⟩)

@[simp] theorem config_apply (w : Window F) (outcome : Outcome) :
    (w.apply outcome).config = w.config := by
  unfold apply
  split <;> split <;> rfl

theorem config_after (w : Window F) (e : Event F) : (w.after e).config = w.config := by
  cases e with
  | dropContent content => simp [after]
  | dropPath path => rfl
  | reloaded outcome => simp [after]
  | loaded outcome => simp [after]
  | retry => rfl
  | draw area handling =>
    rw [after, drawn]
    split <;> rfl

theorem config_afterAll (w : Window F) (events : List (Event F)) :
    (w.afterAll events).config = w.config := by
  induction events generalizing w with
  | nil => rfl
  | cons e rest ih => exact (ih (w.after e)).trans (config_after w e)

/-! ### What is on display -/

/-- The datasets that came into effect, the last one at the end. -/
def datasets (past : List (Moment F)) : List (List Record) :=
  (applications past).filterMap (·.2.toOption)

/-- The canvas of the window, if there is one, has the dataset that came into
effect last, and its view shows it. -/
def OnDisplay (past : List (Moment F)) (w : Window F) : Prop :=
  ∀ canvas, w.screen = .ready canvas →
    (datasets past).getLast? = some canvas.records ∧ canvas.Shows

omit [Scalar F] in
theorem datasets_concat (past : List (Moment F)) (m : Moment F) :
    datasets (past ++ [m]) =
      datasets past ++ (m.applied?.bind fun a => a.2.toOption).toList := by
  rw [datasets, applications_concat, List.filterMap_append, datasets]
  rcases m.applied? with - | a
  · rfl
  · rcases h : a.2.toOption with - | records <;> simp [h]

/-- What comes into effect with a dataset opens or changes the canvas. -/
theorem exists_canvas_of_apply_ok (h : ∀ canvas, w.screen = .ready canvas → canvas.Shows)
    (records : List Record) :
    ∃ canvas : Canvas F, (w.apply (.ok records)).screen = .ready canvas ∧
      canvas.records = records ∧ canvas.Shows := by
  rcases hscreen : w.screen with request | canvas | failure
  · refine ⟨.ofRecords records w.config, ?_, rfl, Canvas.shows_ofRecords _ _⟩
    exact screen_apply_of_not_ready (by simp [hscreen]) _
  · exact ⟨canvas.setRecords records, screen_apply_of_ready_ok hscreen records, rfl,
      (h canvas hscreen).setRecords records⟩
  · refine ⟨.ofRecords records w.config, ?_, rfl, Canvas.shows_ofRecords _ _⟩
    exact screen_apply_of_not_ready (by simp [hscreen]) _

/-- A canvas that is there after a failure is the one that was there before. -/
theorem ready_of_apply_error {failure : Failure} {canvas : Canvas F}
    (h : (w.apply (.error failure)).screen = .ready canvas) : w.screen = .ready canvas := by
  by_contra hscreen
  have hnot : ∀ canvas, w.screen ≠ .ready canvas := by
    intro canvas' hcanvas'
    rw [apply_of_ready_error hcanvas'] at h
    exact hscreen h
  rw [screen_apply_of_not_ready hnot] at h
  cases h

theorem OnDisplay.step (h : OnDisplay past w) (hfits : e.Fits w) :
    OnDisplay (past ++ [⟨w, e⟩]) (w.after e) := by
  intro canvas hcanvas
  rw [datasets_concat]
  rcases happlied : (Moment.mk w e).applied? with - | ⟨request, failure | records⟩
  · -- nothing comes into effect: a canvas has been there before, and may be drawn
    rw [Option.bind_none, Option.toList_none, List.append_nil]
    obtain hsame | ⟨old, area, handling, hold, hdrawn⟩ | ⟨failure, -, hloading⟩ :=
      screen_after_of_unapplied hfits happlied
    · exact h canvas (hsame.symm.trans hcanvas)
    · obtain rfl := Screen.ready.inj (hcanvas.symm.trans hdrawn)
      rw [Canvas.records_frame]
      exact ⟨(h old hold).1, (h old hold).2.frame area handling⟩
    · rw [hloading] at hcanvas
      cases hcanvas
  · -- a failure brings no dataset and no canvas
    rw [screen_after_of_applied happlied] at hcanvas
    simp only [Option.bind_some, Except.toOption, Option.toList_none, List.append_nil]
    exact h canvas (ready_of_apply_error hcanvas)
  · -- a dataset is the last one now, and the canvas gets it
    rw [screen_after_of_applied happlied] at hcanvas
    obtain ⟨opened, hopened, hrecords, hshows⟩ :=
      exists_canvas_of_apply_ok (fun canvas hcanvas => (h canvas hcanvas).2) records
    obtain rfl := Screen.ready.inj (hcanvas.symm.trans hopened)
    exact ⟨by simp [Except.toOption, hrecords], hshows⟩

theorem onDisplay_start (path : String) (config : Config F) :
    OnDisplay [] (start path config).1 := nofun

/-! ### Runs -/

theorem run_append (w : Window F) (frames more : List (Mail × WindowFrame F)) :
    w.run (frames ++ more) = (w.run frames).run more := List.foldl_append

/-- A window that has a canvas keeps one. -/
theorem ready_afterAll {canvas : Canvas F} (h : w.screen = .ready canvas)
    {events : List (Event F)} (hpossible : w.Possible events) :
    ∃ canvas, (w.afterAll events).screen = .ready canvas := by
  induction events generalizing w canvas with
  | nil => exact ⟨canvas, h⟩
  | cons e rest ih =>
    obtain ⟨canvas', hcanvas'⟩ := ready_after h hpossible.1
    exact ih hcanvas' hpossible.2

/-- A failure that comes into effect leaves a canvas as it is. -/
theorem failure_of_ready {canvas : Canvas F} (h : w.screen = .ready canvas) {request : Nat}
    {failure : Failure} (happlied : (Moment.mk w e).applied? = some (request, .error failure)) :
    (w.after e).screen = .ready canvas := by
  rw [screen_after_of_applied happlied, apply_of_ready_error h, h]

/-- What the loading screen is left for. -/
theorem after_of_loading {request : Nat} {config : Config F} (h : w.screen = .loading request)
    (hconfig : w.config = config) (hfits : e.Fits w) :
    ((Moment.mk w e).applied? = none ∧ (w.after e).screen = .loading request) ∨
      ∃ k outcome, (Moment.mk w e).applied? = some (k, outcome) ∧
        (w.after e).screen = opened config outcome := by
  subst hconfig
  rcases happlied : (Moment.mk w e).applied? with - | ⟨k, outcome⟩
  · refine .inl ⟨rfl, ?_⟩
    obtain hsame | ⟨canvas, -, -, hcanvas, -⟩ | ⟨failure, hfailure, -⟩ :=
      screen_after_of_unapplied hfits happlied
    · rw [hsame, h]
    · rw [h] at hcanvas
      cases hcanvas
    · rw [h] at hfailure
      cases hfailure
  · refine .inr ⟨k, outcome, rfl, ?_⟩
    rw [screen_after_of_applied happlied]
    exact screen_apply_of_not_ready (by simp [h]) outcome

/-- **A window shows what came into effect last.**  A run of frames is a sequence
of events, in which every request comes into effect once at most.  Whenever there
is a canvas, it has the last dataset that came into effect, and its view has the
nodes and links of that dataset; a failure leaves it as it is, and there is one
for good.  The loading screen is left only as a request comes into effect, for
the canvas or for the screen that reports the failure. -/
theorem screens_of_run (path : String) (config : Config F)
    (frames : List (Mail × WindowFrame F)) :
    let w := (start path config).1
    let events := w.runEvents frames
    w.run frames = w.afterAll events ∧
    ((applications (w.moments events)).map (·.1)).Nodup ∧
    (∀ before, before <+: events → ∀ canvas, (w.afterAll before).screen = .ready canvas →
      (datasets (w.moments before)).getLast? = some canvas.records ∧
      ∀ v, canvas.view = some v →
        v.graph.nodes.map (·.name) =
          (Graph.ofRecords canvas.records : Graph F).nodes.map (·.name) ∧
        v.graph.links.map Link.undrawn = (Graph.ofRecords canvas.records).links) ∧
    (∀ before e, before ++ [e] <+: events →
      let m := w.momentAfter before e
      (∀ canvas, m.window.screen = .ready canvas →
        (∃ canvas, m.next.screen = .ready canvas) ∧
        ∀ request failure, m.applied? = some (request, .error failure) →
          m.next.screen = .ready canvas) ∧
      ∀ request, m.window.screen = .loading request →
        (m.applied? = none ∧ m.next.screen = .loading request) ∨
        ∃ k outcome, m.applied? = some (k, outcome) ∧
          m.next.screen = opened config outcome) ∧
    ∀ more canvas, (w.run frames).screen = .ready canvas →
      ∃ canvas, (w.run (frames ++ more)).screen = .ready canvas := by
  intro w events
  have hpossible : w.Possible events := possible_runEvents w frames
  refine ⟨run_eq_afterAll w frames, (numbered_runEvents path config frames).nodup,
    fun before hbefore canvas hcanvas => ?_, fun before e hbefore => ⟨fun canvas hcanvas => ?_,
      fun request hloading => ?_⟩, fun more canvas hcanvas => ?_⟩
  · have hdisplay : OnDisplay (w.moments before) (w.afterAll before) :=
      moments_induction (fun past w e hfits h => h.step hfits) (onDisplay_start path config)
        (possible_before hpossible hbefore)
    obtain ⟨hlatest, hshows⟩ := hdisplay canvas hcanvas
    refine ⟨hlatest, fun v hv => ?_⟩
    obtain ⟨stepped, hcoherent⟩ := hshows v hv
    obtain ⟨hnames, hlinks⟩ := Graph.shape_eq_iff.mp hcoherent.shape
    exact ⟨hnames, by rw [hlinks, Graph.undrawn_links_ofRecords]⟩
  · exact ⟨ready_after hcanvas (fits_next hpossible hbefore),
      fun request failure happlied => failure_of_ready hcanvas happlied⟩
  · exact after_of_loading hloading (config_afterAll w before) (fits_next hpossible hbefore)
  · rw [run_append, run_eq_afterAll _ more]
    exact ready_afterAll hcanvas (possible_runEvents _ more)

end Window

end ForceDiagram
