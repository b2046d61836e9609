/-
ForceDiagram/Proofs/Window/Requests.lean

The order in which requests come into effect.

A window waits for two requests at most, the reload and what its loading screen
waits for, and numbers them in the order they are made.  So a request comes into
effect once at most (`Numbered.nodup`), but not always in its turn: a reload stays
in flight when a file is dropped with its content, or when another load is begun
from the failure screen, and what it brings then replaces what is newer
(`reload_overtaken`).  There is no other way for a request to come into effect
after a later one that has been shown (`later_unless_in_flight`).
-/
import ForceDiagram.Proofs.Window.Events
import ForceDiagram.Scalar.Single

namespace ForceDiagram

variable {F : Type} [Scalar F]

namespace Window

/-! ### What outcomes change -/

variable {w : Window F} {e : Event F} {k : Nat}

@[simp] theorem reload_apply (w : Window F) (outcome : Outcome) :
    (w.apply outcome).reload = w.reload := by
  unfold apply
  split <;> split <;> rfl

@[simp] theorem requests_apply (w : Window F) (outcome : Outcome) :
    (w.apply outcome).requests = w.requests := by
  unfold apply
  split <;> split <;> rfl

/-- Whatever comes, a window does not go on loading. -/
@[simp] theorem screen_apply_ne_loading (w : Window F) (outcome : Outcome) (request : Nat) :
    (w.apply outcome).screen ≠ .loading request := by
  unfold apply
  split <;> split <;> simp_all

theorem exists_ready_apply_ok (w : Window F) (records : List Record) :
    ∃ canvas, (w.apply (.ok records)).screen = .ready canvas := by
  unfold apply
  simp only
  split <;> exact ⟨_, rfl⟩

theorem ready_apply {canvas : Canvas F} (h : w.screen = .ready canvas) (outcome : Outcome) :
    ∃ canvas, (w.apply outcome).screen = .ready canvas := by
  unfold apply
  split <;> simp [h]

@[simp] theorem reload_drawn (w : Window F) (area : Rect F) (handling : Handling F) :
    (w.drawn area handling).reload = w.reload := by
  unfold drawn
  split <;> rfl

@[simp] theorem requests_drawn (w : Window F) (area : Rect F) (handling : Handling F) :
    (w.drawn area handling).requests = w.requests := by
  unfold drawn
  split <;> rfl

theorem drawn_of_ready {canvas : Canvas F} (h : w.screen = .ready canvas) (area : Rect F)
    (handling : Handling F) :
    w.drawn area handling = { w with screen := .ready (canvas.frame area handling).1 } := by
  rw [drawn, h]

/-! ### Requests waited for -/

/-- The window waits for a request. -/
def Pending (w : Window F) (k : Nat) : Prop := w.reload = some k ∨ w.screen = .loading k

/-- What is waited for after an event was waited for before, or is the request
just made. -/
theorem reload_after (h : (w.after e).reload = some k) :
    w.reload = some k ∧ (∀ outcome, e ≠ .reloaded outcome) ∨
      k = w.requests ∧ ∃ path, e = .dropPath path := by
  cases e with
  | dropContent content => exact .inl ⟨by simpa [after] using h, by simp⟩
  | dropPath path => exact .inr ⟨(Option.some.inj h).symm, path, rfl⟩
  | reloaded outcome => simp [after] at h
  | loaded outcome => exact .inl ⟨by simpa [after] using h, by simp⟩
  | retry => exact .inl ⟨h, by simp⟩
  | draw area handling => exact .inl ⟨by simpa [after] using h, by simp⟩

theorem loading_after (hfits : e.Fits w) (h : (w.after e).screen = .loading k) :
    w.screen = .loading k ∧ (∃ path, e = .dropPath path) ∨ k = w.requests ∧ e = .retry := by
  cases e with
  | dropContent content => simp [after] at h
  | dropPath path => exact .inl ⟨h, path, rfl⟩
  | reloaded outcome => simp [after] at h
  | loaded outcome => simp [after] at h
  | retry => exact .inr ⟨(Screen.loading.inj h).symm, rfl⟩
  | draw area handling =>
    obtain ⟨canvas, hcanvas⟩ := hfits
    rw [after, drawn_of_ready hcanvas] at h
    cases h

theorem requests_after (w : Window F) (e : Event F) :
    (w.after e).requests = w.requests + if (Moment.mk w e).requested?.isSome then 1 else 0 := by
  cases e with
  | dropContent content => simp [after, Moment.requested?]
  | dropPath path => rfl
  | reloaded outcome => simp [after, Moment.requested?]
  | loaded outcome => simp [after, Moment.requested?]
  | retry => rfl
  | draw area handling => simp [after, Moment.requested?]

/-! ### Numbers -/

/-- The numbers of requests are told apart. -/
structure Numbered (past : List (Moment F)) (w : Window F) : Prop where
  pending_lt : ∀ k, w.Pending k → k < w.requests
  reload_ne_loading : ∀ k, w.reload = some k → w.screen ≠ .loading k
  applied_lt : ∀ a ∈ applications past, a.1 < w.requests
  not_pending : ∀ a ∈ applications past, ¬ w.Pending a.1
  nodup : ((applications past).map (·.1)).Nodup

variable {past : List (Moment F)}

omit [Scalar F] in
/-- What comes into effect was waited for, or is a file dropped with its content. -/
theorem applied?_cases {a : Nat × Outcome} (h : (Moment.mk w e).applied? = some a) :
    (∃ content, e = .dropContent content ∧ a = (w.requests, outcomeOf content)) ∨
      (w.reload = some a.1 ∧ e = .reloaded a.2) ∨
      (w.screen = .loading a.1 ∧ e = .loaded a.2) := by
  cases e with
  | dropContent content => exact .inl ⟨content, rfl, (Option.some.inj h).symm⟩
  | reloaded outcome =>
    obtain ⟨k, hk, rfl⟩ := Option.map_eq_some_iff.mp h
    exact .inr (.inl ⟨hk, rfl⟩)
  | loaded outcome =>
    unfold Moment.applied? at h
    simp only at h
    split at h
    · next request hrequest =>
      cases h
      exact .inr (.inr ⟨hrequest, rfl⟩)
    · cases h
  | dropPath path => cases h
  | retry => cases h
  | draw area handling => cases h

omit [Scalar F] in
theorem applications_concat (past : List (Moment F)) (m : Moment F) :
    applications (past ++ [m]) = applications past ++ m.applied?.toList := by
  rw [applications, List.filterMap_append, applications]
  cases h : m.applied? <;> simp [h]

omit [Scalar F] in
theorem numbered_start (path : String) (config : Config F) :
    Numbered [] (start path config).1 where
  pending_lt k hk := by
    rcases hk with hk | hk
    · cases hk
    · rw [← Screen.loading.inj hk]
      exact Nat.one_pos
  reload_ne_loading k hk := nomatch hk
  applied_lt := nofun
  not_pending := nofun
  nodup := List.nodup_nil

/-- What comes into effect was waited for, or is a request just made. -/
theorem pending_of_applied {a : Nat × Outcome} (h : (Moment.mk w e).applied? = some a) :
    w.Pending a.1 ∨ a.1 = w.requests ∧ (w.after e).requests = w.requests + 1 := by
  obtain ⟨content, rfl, rfl⟩ | ⟨hreload, -⟩ | ⟨hloading, -⟩ := applied?_cases h
  · exact .inr ⟨rfl, requests_after w _⟩
  · exact .inl (.inl hreload)
  · exact .inl (.inr hloading)

theorem requests_le_after (w : Window F) (e : Event F) : w.requests ≤ (w.after e).requests := by
  rw [requests_after]
  exact Nat.le_add_right _ _

/-- What is waited for after an event was waited for and has not come into effect,
or has just been made. -/
theorem Numbered.pending_after (h : Numbered past w) (hfits : e.Fits w)
    (hk : (w.after e).Pending k) :
    (w.Pending k ∧ ∀ outcome, (Moment.mk w e).applied? ≠ some (k, outcome)) ∨
      (k = w.requests ∧ (Moment.mk w e).applied? = none ∧
        (w.after e).requests = w.requests + 1) := by
  rcases hk with hk | hk
  · obtain ⟨hreload, hother⟩ | ⟨rfl, path, rfl⟩ := reload_after hk
    · refine .inl ⟨.inl hreload, fun outcome happlied => ?_⟩
      obtain ⟨content, -, ha⟩ | ⟨-, rfl⟩ | ⟨hloading, -⟩ := applied?_cases happlied
      · exact absurd (h.pending_lt k (.inl hreload)) (by simp [(Prod.mk.inj ha).1])
      · exact hother outcome rfl
      · exact h.reload_ne_loading k hreload hloading
    · exact .inr ⟨rfl, rfl, rfl⟩
  · obtain ⟨hloading, path, rfl⟩ | ⟨rfl, rfl⟩ := loading_after hfits hk
    · exact .inl ⟨.inr hloading, nofun⟩
    · exact .inr ⟨rfl, rfl, rfl⟩

theorem Numbered.step (h : Numbered past w) (hfits : e.Fits w) :
    Numbered (past ++ [⟨w, e⟩]) (w.after e) := by
  have hle := requests_le_after w e
  have hnew : ∀ {a}, a ∈ applications (past ++ [⟨w, e⟩]) →
      a ∈ applications past ∨ (Moment.mk w e).applied? = some a := by
    intro a ha
    rw [applications_concat] at ha
    exact (List.mem_append.mp ha).imp_right Option.mem_toList.mp
  refine ⟨fun k hk => ?_, fun k hreload hloading => ?_, fun a ha => ?_, fun a ha hk => ?_, ?_⟩
  · obtain ⟨hpending, -⟩ | ⟨rfl, -, hrequests⟩ := h.pending_after hfits hk
    · exact Nat.lt_of_lt_of_le (h.pending_lt k hpending) hle
    · omega
  · -- no event puts one request in both places
    obtain ⟨hold, -⟩ | ⟨rfl, path, rfl⟩ := reload_after hreload
    · obtain ⟨hold', -⟩ | ⟨rfl, -⟩ := loading_after hfits hloading
      · exact h.reload_ne_loading k hold hold'
      · exact absurd (h.pending_lt _ (.inl hold)) (Nat.lt_irrefl _)
    · obtain ⟨hold', -⟩ | ⟨-, hretry⟩ := loading_after hfits hloading
      · exact absurd (h.pending_lt _ (.inr hold')) (Nat.lt_irrefl _)
      · cases hretry
  · rcases hnew ha with ha | ha
    · exact Nat.lt_of_lt_of_le (h.applied_lt a ha) hle
    · obtain hpending | ⟨hnow, hrequests⟩ := pending_of_applied ha
      · exact Nat.lt_of_lt_of_le (h.pending_lt a.1 hpending) hle
      · omega
  · obtain ⟨hpending, hother⟩ | ⟨hnow, hnone, -⟩ := h.pending_after hfits hk
    · rcases hnew ha with ha | ha
      · exact h.not_pending a ha hpending
      · exact hother a.2 ha
    · rcases hnew ha with ha | ha
      · exact absurd (h.applied_lt a ha) (by omega)
      · rw [hnone] at ha
        cases ha
  · rw [applications_concat, List.map_append]
    refine List.nodup_append.mpr ⟨h.nodup, ?_, ?_⟩
    · cases (Moment.mk w e).applied? <;> simp
    · intro k hk k' hk' hsame
      obtain ⟨a, ha, rfl⟩ := List.mem_map.mp hk
      obtain ⟨a', ha', rfl⟩ := List.mem_map.mp hk'
      obtain hpending | ⟨hnow, -⟩ := pending_of_applied (Option.mem_toList.mp ha')
      · exact h.not_pending a ha (hsame ▸ hpending)
      · exact absurd (h.applied_lt a ha) (by omega)

/-- In a run every request comes into effect once at most. -/
theorem numbered_runEvents (path : String) (config : Config F)
    (frames : List (Mail × WindowFrame F)) :
    let w := (start path config).1
    Numbered (w.moments (w.runEvents frames)) (w.run frames) := by
  intro w
  rw [run_eq_afterAll]
  exact moments_induction (fun past w e hfits h => h.step hfits) (numbered_start path config)
    (possible_runEvents w frames)

/-! ### Turns -/

/-- The dataset of request `k` has come into effect. -/
def Shown (past : List (Moment F)) (k : Nat) : Prop :=
  ∃ records, (k, .ok records) ∈ applications past

/-- Request `k` was made while a reload was in flight, and left it there. -/
def LeftInFlight (past : List (Moment F)) (reload k : Nat) : Prop :=
  ∃ m ∈ past, m.requested? = some k ∧ m.window.reload = some reload ∧
    m.next.reload = some reload

/-- The reload in flight is later than what is shown or being loaded, unless it
was left there. -/
structure InTurn (past : List (Moment F)) (w : Window F) : Prop where
  numbered : Numbered past w
  later : ∀ k, Shown past k ∨ w.screen = .loading k → ∀ j, w.reload = some j →
    k < j ∨ LeftInFlight past j k
  ready : ∀ k, Shown past k → ∃ canvas, w.screen = .ready canvas

theorem LeftInFlight.concat {j : Nat} (h : LeftInFlight past j k) (m : Moment F) :
    LeftInFlight (past ++ [m]) j k := by
  obtain ⟨left, hleft, hrest⟩ := h
  exact ⟨left, List.mem_append_left _ hleft, hrest⟩

omit [Scalar F] in
theorem shown_concat {m : Moment F} :
    Shown (past ++ [m]) k ↔ Shown past k ∨ ∃ records, m.applied? = some (k, .ok records) := by
  simp only [Shown, applications_concat, List.mem_append, Option.mem_toList, exists_or]

/-- A window with a canvas keeps it. -/
theorem ready_after {canvas : Canvas F} (h : w.screen = .ready canvas) (hfits : e.Fits w) :
    ∃ canvas, (w.after e).screen = .ready canvas := by
  cases e with
  | dropContent content =>
    exact ready_apply (w := { w with requests := w.requests + 1 }) h (outcomeOf content)
  | dropPath path => exact ⟨canvas, h⟩
  | reloaded outcome => exact ready_apply (w := { w with reload := none }) h outcome
  | loaded outcome => exact ready_apply h _
  | retry =>
    obtain ⟨failure, hfailure⟩ := hfits
    rw [h] at hfailure
    cases hfailure
  | draw area handling => exact ⟨_, by rw [after, drawn_of_ready h]⟩

theorem inTurn_start (path : String) (config : Config F) :
    InTurn [] (start path config).1 where
  numbered := numbered_start path config
  later _ _ _ hj := nomatch hj
  ready _ hk := by
    obtain ⟨records, hk⟩ := hk
    cases hk

theorem InTurn.lt_requests (h : InTurn past w) (hk : Shown past k ∨ w.screen = .loading k) :
    k < w.requests := by
  obtain ⟨records, hk⟩ | hk := hk
  · exact h.numbered.applied_lt _ hk
  · exact h.numbered.pending_lt k (.inr hk)

/-- What is shown or being loaded after an event was so before, or is the request
just made. -/
theorem shown_or_loading_after (hfits : e.Fits w) (hother : ∀ outcome, e ≠ .reloaded outcome)
    (hk : Shown (past ++ [⟨w, e⟩]) k ∨ (w.after e).screen = .loading k) :
    (Shown past k ∨ w.screen = .loading k) ∨ (Moment.mk w e).requested? = some k := by
  rcases hk with hk | hk
  · obtain hk | ⟨records, hk⟩ := shown_concat.mp hk
    · exact .inl (.inl hk)
    · obtain ⟨content, rfl, ha⟩ | ⟨-, hreloaded⟩ | ⟨hloading, -⟩ := applied?_cases hk
      · exact .inr (congrArg some (Prod.mk.inj ha).1.symm)
      · exact absurd hreloaded (hother _)
      · exact .inl (.inr hloading)
  · obtain ⟨hloading, -⟩ | ⟨rfl, rfl⟩ := loading_after hfits hk
    · exact .inl (.inr hloading)
    · exact .inr rfl

theorem InTurn.step (h : InTurn past w) (hfits : e.Fits w) :
    InTurn (past ++ [⟨w, e⟩]) (w.after e) where
  numbered := h.numbered.step hfits
  later k hk j hj := by
    obtain ⟨hreload, hother⟩ | ⟨rfl, path, rfl⟩ := reload_after hj
    · obtain hk | hk := shown_or_loading_after hfits hother hk
      · exact (h.later k hk j hreload).imp_right fun hleft => hleft.concat _
      · -- the event makes the request, and the reload is there before and after it
        exact .inr ⟨⟨w, e⟩, List.mem_concat_self, hk, hreload, hj⟩
    · -- a path that is dropped takes the place of the reload, and shows nothing yet
      have hold : Shown past k ∨ w.screen = .loading k :=
        hk.imp_left fun hk => (shown_concat.mp hk).resolve_right fun ⟨_, hnow⟩ => nomatch hnow
      exact .inl (h.lt_requests hold)
  ready k hk := by
    obtain hk | ⟨records, hk⟩ := shown_concat.mp hk
    · obtain ⟨canvas, hcanvas⟩ := h.ready k hk
      exact ready_after hcanvas hfits
    · obtain ⟨content, rfl, ha⟩ | ⟨-, rfl⟩ | ⟨-, rfl⟩ := applied?_cases hk
      · rw [after, ← (Prod.mk.inj ha).2]
        exact exists_ready_apply_ok _ records
      · exact exists_ready_apply_ok _ records
      · exact exists_ready_apply_ok _ records

theorem inTurn_before (path : String) (config : Config F)
    (frames : List (Mail × WindowFrame F)) {before : List (Event F)}
    (hbefore : before <+: (start path config).1.runEvents frames) :
    let w := (start path config).1
    InTurn (w.moments before) (w.afterAll before) := by
  intro w
  exact moments_induction (fun past w e hfits h => h.step hfits) (inTurn_start path config)
    (possible_before (possible_runEvents w frames) hbefore)

omit [Scalar F] in
theorem requested?_eq_some {m : Moment F} (h : m.requested? = some k) : k = m.window.requests := by
  unfold Moment.requested? at h
  split at h
  · exact (Option.some.inj h).symm
  · exact (Option.some.inj h).symm
  · exact (Option.some.inj h).symm
  · cases h

/-- Requests are numbered as they are made. -/
theorem requested_moments (w : Window F) (events : List (Event F)) :
    (w.moments events).filterMap Moment.requested? =
      List.range' w.requests ((w.moments events).filterMap Moment.requested?).length := by
  induction events generalizing w with
  | nil => rfl
  | cons e rest ih =>
    have hrest := ih (w.after e)
    have hafter := requests_after w e
    rw [moments]
    rcases he : (Moment.mk w e).requested? with - | k
    · rw [List.filterMap_cons_none he]
      rwa [hafter, he] at hrest
    · rw [hafter, he] at hrest
      rw [List.filterMap_cons_some he, List.length_cons, List.range'_succ, requested?_eq_some he]
      exact congrArg (List.cons w.requests) hrest

/-- **A request comes into effect after a later one only if it was left in flight.**
Numbers are given in the order in which requests are made.  Once the dataset of a
request is shown, whatever comes into effect was requested later, unless it is a
reload that was in flight as that request was made and stayed so, as it does when
a file is dropped with its content and when another load is begun. -/
theorem later_unless_in_flight (path : String) (config : Config F)
    (frames : List (Mail × WindowFrame F)) :
    let w := (start path config).1
    let events := w.runEvents frames
    let made := (w.moments events).filterMap Moment.requested?
    0 :: made = List.range (made.length + 1) ∧
    ∀ before e, before ++ [e] <+: events → ∀ k, Shown (w.moments before) k →
      ∀ j outcome, (w.momentAfter before e).applied? = some (j, outcome) →
        k < j ∨ j < k ∧ LeftInFlight (w.moments before) j k := by
  intro w events made
  refine ⟨?_, fun before e hbefore k hk j outcome happlied => ?_⟩
  · have hmade : made = List.range' 1 made.length := requested_moments w events
    rw [List.range_eq_range', List.range'_succ]
    exact congrArg (List.cons 0) hmade
  · have h : InTurn (w.moments before) (w.afterAll before) :=
      inTurn_before path config frames ((List.prefix_append _ _).trans hbefore)
    obtain ⟨content, -, ha⟩ | ⟨hreload, -⟩ | ⟨hloading, -⟩ := applied?_cases happlied
    · rw [(Prod.mk.inj ha).1]
      exact .inl (h.lt_requests (.inl hk))
    · obtain hlt | hleft := h.later k (.inl hk) j hreload
      · exact .inl hlt
      · -- it has not come into effect before, so it is not what is shown
        obtain ⟨records, hrecords⟩ := hk
        have hne : k ≠ j := by
          rintro rfl
          exact h.numbered.not_pending _ hrecords (.inl hreload)
        exact (Nat.lt_or_gt_of_ne hne).imp_right fun hlt => ⟨hlt, hleft⟩
    · obtain ⟨canvas, hcanvas⟩ := h.ready k hk
      rw [hcanvas] at hloading
      cases hloading

/-- A file is dropped by its path and then another one with its content, which is
shown; then the first arrives and takes its place. -/
theorem reload_overtaken :
    let older : Dropped := ⟨none, some "older.json"⟩
    let newer : Dropped := ⟨some "[[\"x\", \"y\", \"response\"]]".toUTF8.toList, none⟩
    let still : Handling Float32 := ⟨none, false, false, none, none⟩
    let area : Rect Float32 := ⟨.zero, .zero⟩
    let w : Window Float32 := (start "traces.json" .standard).1
    let events := w.runEvents
      [(fun _ => .awaited, ⟨[older, newer], area, still, false⟩),
        (fun _ => .arrived (.ok []), ⟨[], area, still, false⟩)]
    (applications (w.moments events)).map (fun a => (a.1, a.2.toOption)) =
      [(2, some [⟨"x", "y", "response"⟩]), (1, some [])] := by
  decide +kernel

end Window

end ForceDiagram
