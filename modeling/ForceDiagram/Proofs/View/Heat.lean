/-
ForceDiagram/Proofs/View/Heat.lean

How long a layout runs.

What decides whether the stepping loop goes on is the heat of a view: where it is,
where it goes and by which part of the way, below what the loop comes to rest, and
whether it runs.  A turn of the loop takes the heat to the next one by itself
(`Heat.turn`), and nothing else of the view has a part in it (`heat_advance`).  So
two views of the same heat take the same number of steps and stay alike
(`settle_of_heat`), whatever they show.

To settle twice is to settle once for both (`settle_add`): the test comes before each
turn, so a settling that ends early has ended for good.  A view at rest stays at rest
until something rouses it (`running_perform_iff`).

The part of the way that the heat goes by default is given by its digits.  It is what is left
of one when the root of degree three hundred of the least heat is taken away, in single
precision (`Config.alphaDecay_standard`).
-/
import ForceDiagram.Proofs.Scalar.Values
import ForceDiagram.Proofs.View.Pinned
import ForceDiagram.Scalar.Single

namespace ForceDiagram

variable {F : Type} [Scalar F]

/-! ### Heat -/

/-- What the stepping loop goes by. -/
structure Heat (F : Type) where
  alpha : F
  target : F
  running : Bool
  /-- The heat below which the loop comes to rest. -/
  least : F
  /-- The part of the way to its target that the heat goes in one step. -/
  decay : F

/-- The heat after one turn of the loop. -/
def Heat.turn (h : Heat F) : Heat F :=
  if h.running then
    let alpha := h.alpha + (h.target - h.alpha) * h.decay
    { h with alpha, running := !decide (alpha < h.least) }
  else h

namespace Config

open Single

/-- A root lies between two numbers if its power lies between theirs. -/
theorem root_between {least low high : ℝ} (hleast : 0 ≤ least) (hhigh : 0 ≤ high)
    (hbelow : (low ^ 150) ^ 2 < least) (habove : least < (high ^ 150) ^ 2) :
    low < least ^ (1 / 300 : ℝ) ∧ least ^ (1 / 300 : ℝ) < high := by
  have hpow : ((least ^ (1 / 300 : ℝ)) ^ 150) ^ 2 = least := by
    rw [← pow_mul, ← Real.rpow_natCast, ← Real.rpow_mul hleast]
    norm_num
  have hroot : 0 ≤ least ^ (1 / 300 : ℝ) := Real.rpow_nonneg hleast _
  rw [← hpow, ← pow_mul, ← pow_mul] at hbelow habove
  exact ⟨lt_of_pow_lt_pow_left₀ _ hroot hbelow, lt_of_pow_lt_pow_left₀ _ hhigh habove⟩

/-- The standard decay is one less the root of the least heat, both rounded. -/
theorem alphaDecay_standard : ∃ (least : ℝ) (root : Float32),
    value? (standard : Config Float32).alphaMin = some (least : EReal) ∧
      Rounds ((least ^ (1 / 300 : ℝ) : ℝ) : EReal) root ∧
      (standard : Config Float32).alphaDecay = 1 - root := by
  let least : ℝ := (8589935 : ℕ) * 2 ^ (-33 : ℤ)
  refine ⟨least, 0.97723722, value?_of_unpack rfl, ?_, rfl⟩
  -- the bounds are halfway to the numbers next to the rounded root
  have hbetween : (32790639 / 2 ^ 25 : ℝ) < least ^ (1 / 300 : ℝ) ∧
      least ^ (1 / 300 : ℝ) < 32790641 / 2 ^ 25 :=
    root_between (by positivity) (by positivity) (by norm_num [least]) (by norm_num [least])
  have hvalue : value? (0.97723722 : Float32) =
      some (((16395320 : ℤ) * 2 ^ (-24 : ℤ) : ℝ) : EReal) := value?_of_unpack rfl
  generalize least ^ (1 / 300 : ℝ) = root at hbetween ⊢
  obtain ⟨hlow, hhigh⟩ := hbetween
  have habs : |root| = root := abs_of_pos (lt_trans (by positivity) hlow)
  have hdigit : LastDigit root (-24) := by
    refine ⟨by norm_num, ?_, .inr ?_⟩ <;> rw [habs] <;> norm_num at hlow hhigh ⊢ <;> linarith
  have hnear : |root / 2 ^ (-24 : ℤ) - (16395320 : ℤ)| < 1 / 2 := by
    rw [abs_lt]
    constructor <;> norm_num at hlow hhigh ⊢ <;> linarith
  exact rounds_of_abs_sub_lt hdigit hnear hvalue

end Config

namespace Simulation

variable (s : Simulation F)

@[simp] theorem rested_alpha : s.rested.alpha = s.alpha := by
  unfold rested
  split <;> rfl

theorem running_rested :
    s.rested.running = (s.running && !decide (s.alpha < s.config.alphaMin)) := by
  unfold rested
  split
  · next hcold => rw [decide_eq_true hcold, Bool.not_true, Bool.and_false, stop]
  · next hcold => rw [decide_eq_false hcold, Bool.not_false, Bool.and_true]

end Simulation

namespace Drag

variable {s : Simulation F} (d : Drag F) (node : Nat) (pointer offset : Vec F)

/-- Of the gestures only the first one rouses a simulation at rest. -/
theorem running_begin_iff (h : s.running = false) :
    (d.begin s node pointer offset).2.running = true ↔
      d.isIdle = true ∧ node < s.graph.nodes.size := by
  by_cases hrefused : s.graph.nodes.size ≤ node ∨ d.isDragging node = true
  · rw [begin_of_refused hrefused, h]
    refine iff_of_false Bool.false_ne_true fun ⟨hidle, hnode⟩ => ?_
    obtain hout | hheld := hrefused
    · exact Nat.not_lt.mpr hout hnode
    · rw [isIdle_of_isDragging hheld] at hidle
      cases hidle
  · obtain ⟨hnode, hfree⟩ := not_or.mp hrefused
    have hnode : node < s.graph.nodes.size := Nat.not_le.mp hnode
    rw [begin_of_free hnode (isDragging_eq_false_iff.mp (Bool.eq_false_of_not_eq_true hfree))]
    show (d.heated s).running = true ↔ _
    rcases hidle : d.isIdle with - | -
    · simp [heated, hidle, h]
    · simp [heated, hidle, hnode, reheated, Simulation.restart]

theorem running_grab_iff (h : s.running = false) :
    (d.grab s node pointer).2.running = true ↔ d.isIdle = true ∧ node < s.graph.nodes.size := by
  unfold grab
  split
  · exact running_begin_iff d node pointer _ h
  · next hout =>
    rw [h]
    refine iff_of_false Bool.false_ne_true fun hbegins => ?_
    exact Nat.not_lt.mpr (Array.getElem?_eq_none_iff.mp hout) hbegins.2

theorem running_move (s : Simulation F) : (d.move s node pointer).running = s.running := by
  unfold move
  split <;> rfl

theorem running_finish (s : Simulation F) : (d.finish s node).2.running = s.running := by
  rcases hheld : d.isDragging node with - | -
  · rw [finish_of_not_dragging hheld]
  · rw [finish_of_dragging hheld]
    show ((d.without node).cooling s).running = _
    unfold cooling
    split <;> rfl

end Drag

namespace View

variable {v w : View F}

def heat (v : View F) : Heat F where
  alpha := v.simulation.alpha
  target := v.simulation.alphaTarget
  running := v.simulation.running
  least := v.config.alphaMin
  decay := v.config.alphaDecay

theorem config_advance (v : View F) :
    v.advance.1.config = v.config ∧ v.advance.1.simulation.config = v.simulation.config := by
  refine ⟨?_, (advance_simulation_frame v).2.1⟩
  rcases hrun : v.simulation.running with - | -
  · rw [advance_of_resting hrun]
  · rw [advance_of_running hrun]

/-- An advance turns the heat, and nothing but the heat has a part in it. -/
theorem heat_advance (h : v.simulation.config = v.config) : v.advance.1.heat = v.heat.turn := by
  rcases hrun : v.simulation.running with - | -
  · rw [advance_of_resting hrun, Heat.turn, if_neg (by simp [heat, hrun])]
  · have hcooled : v.simulation.step.alpha =
        v.heat.alpha + (v.heat.target - v.heat.alpha) * v.heat.decay := by
      show v.simulation.cooled = _
      rw [Simulation.cooled, h]
      rfl
    have hleast : v.simulation.step.config.alphaMin = v.heat.least := congrArg Config.alphaMin h
    have hrunning : v.simulation.step.running = true := hrun
    rw [Heat.turn, if_pos (show v.heat.running = true from hrun), ← hcooled,
      advance_of_running hrun, heat]
    simp only [Simulation.rested_alpha, Simulation.rested_alphaTarget,
      Simulation.running_rested, hrunning, Bool.true_and]
    rw [hleast]
    rfl

/-! ### Settling -/

theorem settle_succ (h : v.simulation.running = true) (most : Nat) :
    v.settle (most + 1) = ((v.advance.1.settle most).1, (v.advance.1.settle most).2 + 1) := by
  refine Prod.ext (settle_succ_of_running h most) ?_
  rw [settle_eq_turns, settle_eq_turns, turns, if_pos h, List.length_cons]

/-- Views of the same heat take the same number of steps, and have the same heat after
them. -/
theorem settle_of_heat (hv : v.simulation.config = v.config) (hw : w.simulation.config = w.config)
    (h : v.heat = w.heat) (most : Nat) :
    (v.settle most).2 = (w.settle most).2 ∧ (v.settle most).1.heat = (w.settle most).1.heat := by
  induction most generalizing v w with
  | zero => exact ⟨rfl, h⟩
  | succ most ih =>
    have hrunning : v.simulation.running = w.simulation.running := congrArg Heat.running h
    rcases hrun : v.simulation.running with - | -
    · rw [settle_of_resting hrun, settle_of_resting (hrunning.symm.trans hrun)]
      exact ⟨rfl, h⟩
    · obtain ⟨hv₁, hv₂⟩ := config_advance v
      obtain ⟨hw₁, hw₂⟩ := config_advance w
      have hturned : v.advance.1.heat = w.advance.1.heat := by
        rw [heat_advance hv, heat_advance hw, h]
      obtain ⟨hcount, hheat⟩ := ih (by rw [hv₁, hv₂, hv]) (by rw [hw₁, hw₂, hw]) hturned
      rw [settle_succ hrun, settle_succ (hrunning.symm.trans hrun)]
      exact ⟨congrArg (· + 1) hcount, hheat⟩

/-- To settle twice is to settle once for both. -/
theorem settle_add (v : View F) (first second : Nat) :
    v.settle (first + second) =
      (((v.settle first).1.settle second).1,
        (v.settle first).2 + ((v.settle first).1.settle second).2) := by
  induction first generalizing v with
  | zero =>
    rw [Nat.zero_add]
    exact Prod.ext rfl (Nat.zero_add _).symm
  | succ first ih =>
    rcases hrun : v.simulation.running with - | -
    · rw [settle_of_resting hrun, settle_of_resting hrun, settle_of_resting hrun]
      rfl
    · rw [Nat.succ_add, settle_succ hrun, settle_succ hrun, ih]
      exact Prod.ext rfl (Nat.add_right_comm _ _ 1)

theorem settle_le (v : View F) (most : Nat) : (v.settle most).2 ≤ most := by
  induction most generalizing v with
  | zero => exact Nat.le_refl 0
  | succ most ih =>
    rcases hrun : v.simulation.running with - | -
    · rw [settle_of_resting hrun]
      exact Nat.zero_le _
    · rw [settle_succ hrun]
      exact Nat.succ_le_succ (ih v.advance.1)

/-- A settling that ends early ends at rest, and cold if it began running. -/
theorem settle_of_lt {most : Nat} (hconfig : v.simulation.config = v.config)
    (hlt : (v.settle most).2 < most) :
    (v.settle most).1.simulation.running = false ∧
      (v.simulation.running = true →
        (v.settle most).1.simulation.alpha < v.config.alphaMin) := by
  induction most generalizing v with
  | zero => exact absurd hlt (Nat.not_lt_zero _)
  | succ most ih =>
    rcases hrun : v.simulation.running with - | -
    · rw [settle_of_resting hrun]
      exact ⟨hrun, nofun⟩
    · obtain ⟨hconfig₁, hconfig₂⟩ := config_advance v
      rw [settle_succ hrun] at hlt ⊢
      obtain ⟨hrests, hcold⟩ :=
        ih (by rw [hconfig₁, hconfig₂, hconfig]) (Nat.lt_of_succ_lt_succ hlt)
      rw [hconfig₁] at hcold
      refine ⟨hrests, fun _ => ?_⟩
      -- the turn that was the last one ended cold
      rcases hnext : v.advance.1.simulation.running with - | -
      · obtain hgoes | hends := running_advance hrun hconfig
        · rw [hnext] at hgoes
          cases hgoes
        · rw [settle_of_resting hnext]
          exact hends.2
      · exact hcold hnext

/-! ### Rest -/

/-- What rouses a view at rest: another dataset, another viewport, or a gesture that
begins while none is under way. -/
def Action.Rouses (v : View F) : Action F → Prop
  | .setDataset _ => True
  | .resize viewport => (viewport == v.viewport) = false
  | .dragStart node _ => v.drag.isIdle = true ∧ node < v.graph.nodes.size
  | .grab node _ => v.drag.isIdle = true ∧ node < v.graph.nodes.size
  | _ => False

/-- Nothing in a history rouses the view it comes upon. -/
def Quiet (v : View F) : List (Action F) → Prop
  | [] => True
  | action :: rest => ¬ action.Rouses v ∧ (v.perform action).1.Quiet rest

/-- A view at rest goes on resting until something rouses it, and then it runs. -/
theorem running_perform_iff (h : v.simulation.running = false) (action : Action F) :
    (v.perform action).1.simulation.running = true ↔ action.Rouses v := by
  have hrests : v.simulation.running = true ↔ False := by simp [h]
  cases action with
  | setDataset records => exact iff_of_true rfl trivial
  | resize viewport =>
    rcases heq : viewport == v.viewport with - | -
    · rw [perform, resize_of_ne heq]
      exact iff_of_true rfl heq
    · rw [perform, resize_of_eq heq, Action.Rouses, heq]
      simpa using h
  | advance =>
    rw [perform, advance_of_resting h]
    exact hrests
  | settle most =>
    rw [perform, settle_of_resting h]
    exact hrests
  | dragStart node pointer => exact v.drag.running_begin_iff node pointer .zero h
  | grab node pointer => exact v.drag.running_grab_iff node pointer h
  | dragMove node pointer => exact (v.drag.running_move node pointer _).congr_left.trans hrests
  | dragEnd node => exact (v.drag.running_finish node _).congr_left.trans hrests

theorem running_run_of_quiet {later : List (Action F)} (h : v.simulation.running = false)
    (hquiet : v.Quiet later) : (v.run later).simulation.running = false := by
  induction later generalizing v with
  | nil => exact h
  | cons action rest ih =>
    have hrests := mt (running_perform_iff h action).mp hquiet.1
    exact ih (Bool.eq_false_of_not_eq_true hrests) hquiet.2

/-! ### Runs -/

/-- **How long a layout runs does not depend on what is laid out.**  For every view that
can be reached:

* any other one of the same heat, whatever it shows, takes the same number of steps to
  settle, and has the same heat afterwards;
* to settle twice is to settle once for both, and the counts add up;
* a settling that ends early ends at rest, and cold if the loop ran before;
* at rest, neither an advance nor a settling changes anything, and so it stays until
  something rouses the view. -/
theorem settling_by_heat (records : List Record) (viewport : Viewport F) (config : Config F)
    (history : List (Action F)) :
    let v : View F := (ofRecords records viewport config).run history
    (∀ (records' : List Record) (viewport' : Viewport F) (config' : Config F)
        (history' : List (Action F)),
      let w : View F := (ofRecords records' viewport' config').run history'
      v.heat = w.heat → ∀ most,
        (v.settle most).2 = (w.settle most).2 ∧
        (v.settle most).1.simulation.alpha = (w.settle most).1.simulation.alpha ∧
        (v.settle most).1.simulation.running = (w.settle most).1.simulation.running) ∧
    (∀ first second, v.settle (first + second) =
      (((v.settle first).1.settle second).1,
        (v.settle first).2 + ((v.settle first).1.settle second).2)) ∧
    (∀ most, (v.settle most).2 ≤ most ∧ ((v.settle most).2 < most →
      (v.settle most).1.simulation.running = false ∧
      (v.simulation.running = true →
        (v.settle most).1.simulation.alpha < v.config.alphaMin))) ∧
    (v.simulation.running = false → ∀ later, v.Quiet later →
      let u := v.run later
      u.advance = (u, false) ∧ (∀ most, u.settle most = (u, 0)) ∧
      ∀ action, (u.perform action).1.simulation.running = true ↔ action.Rouses u) := by
  have hconfigs : ∀ (records : List Record) (viewport : Viewport F) (config : Config F) history,
      ((ofRecords records viewport config).run history).simulation.config =
        ((ofRecords records viewport config).run history).config := by
    intro records viewport config history
    have hheld := (held_ofRecords records viewport config).run history
    exact hheld.simulation_config.trans hheld.view_config.symm
  intro v
  have hv : v.simulation.config = v.config := hconfigs records viewport config history
  refine ⟨fun records' viewport' config' history' => ?_, v.settle_add, fun most => ?_, ?_⟩
  · intro w hheat most
    have hw : w.simulation.config = w.config := hconfigs records' viewport' config' history'
    obtain ⟨hcount, hafter⟩ := settle_of_heat hv hw hheat most
    exact ⟨hcount, congrArg Heat.alpha hafter, congrArg Heat.running hafter⟩
  · exact ⟨v.settle_le most, settle_of_lt hv⟩
  · intro hrests later hquiet u
    have hu : u.simulation.running = false := running_run_of_quiet hrests hquiet
    exact ⟨advance_of_resting hu, settle_of_resting hu, running_perform_iff hu⟩

/-- Two datasets of one heat, for viewports and radii of their own; and a view that one
advance brings to rest under a gesture. -/
theorem settling_by_heat_of_two :
    let v : View Float32 := (ofRecords [⟨"a", "b", "response"⟩] ⟨1200, 800⟩ .standard).run
      [.dragStart 0 ⟨5, 5⟩, .dragEnd 0]
    let w : View Float32 := (ofRecords [⟨"x", "y", "z"⟩, ⟨"y", "z", "z"⟩] ⟨300, 200⟩
      { (.standard : Config Float32) with nodeRadius := 5 }).run [.resize ⟨400, 300⟩]
    let u : View Float32 := (ofRecords [⟨"a", "b", "response"⟩] ⟨1200, 800⟩
      { (.standard : Config Float32) with alphaMin := 2 }).run [.dragStart 0 ⟨5, 5⟩, .advance]
    let later : List (Action Float32) := [.dragMove 0 ⟨6, 6⟩, .dragStart 1 ⟨7, 7⟩, .settle 3]
    v.heat = w.heat ∧ (∀ most, (v.settle most).2 = (w.settle most).2) ∧
      u.simulation.running = false ∧ u.Quiet later ∧
      ∀ most, (u.run later).settle most = (u.run later, 0) := by
  intro v w u later
  have hheat : v.heat = w.heat := by rfl
  let dragged : View Float32 := (ofRecords [⟨"a", "b", "response"⟩] ⟨1200, 800⟩
    { (.standard : Config Float32) with alphaMin := 2 }).run [.dragStart 0 ⟨5, 5⟩]
  have hrests : u.heat.running = false := by
    have hcold : dragged.heat.turn.running = false := by decide +kernel
    rwa [← heat_advance rfl] at hcold
  have hbusy : u.drag.isIdle = false := congrArg Drag.isIdle (drag_advance dragged)
  have hquiet : u.Quiet later := by
    refine ⟨id, fun h => ?_, id, trivial⟩
    have hidle : u.drag.isIdle = true := h.1
    rw [hbusy] at hidle
    cases hidle
  have hsame := (settling_by_heat [⟨"a", "b", "response"⟩] ⟨1200, 800⟩ .standard
    [.dragStart 0 ⟨5, 5⟩, .dragEnd 0]).1 [⟨"x", "y", "z"⟩, ⟨"y", "z", "z"⟩] ⟨300, 200⟩
    { (.standard : Config Float32) with nodeRadius := 5 } [.resize ⟨400, 300⟩] hheat
  have hrest := (settling_by_heat [⟨"a", "b", "response"⟩] ⟨1200, 800⟩
    { (.standard : Config Float32) with alphaMin := 2 }
    [.dragStart 0 ⟨5, 5⟩, .advance]).2.2.2 hrests later hquiet
  exact ⟨hheat, fun most => (hsame most).1, hrests, hquiet, hrest.2.1⟩

end View

end ForceDiagram
