/-
ForceDiagram/Proofs/View/Samples.lean

The generator of a view, and what samples do for nodes that coincide.

Whatever happens to a view, its generator comes of the initial one: a step passes it on through
all forces, each of which draws samples one after the other, and another dataset or viewport starts
with the initial one again (`reached_run`).

Main result: `keeps_apart`.
-/
import ForceDiagram.Proofs.Force.Samples
import ForceDiagram.Proofs.View.Steps

namespace ForceDiagram

open Jitter Scalar

section

variable {F : Type} [Scalar F]

/-! ### Steps and actions -/

namespace Simulation

theorem reached_step {s : Simulation F} (h : Reached s.jitter) : Reached s.step.jitter :=
  (charge s.config s.cooled).reached_act
    ((collision s.config).reached_act (Spring.reached_actAll s.config.linkDistance s.cooled _ _ h))

theorem jitter_rested (s : Simulation F) : s.rested.jitter = s.jitter := by
  unfold rested
  split <;> rfl

theorem Gestured.jitter {s s' : Simulation F} (h : Gestured s s') : s'.jitter = s.jitter :=
  congrArg (·.jitter) h.released

end Simulation

namespace View

variable {v : View F}

theorem reached_advance (h : Reached v.simulation.jitter) :
    Reached v.advance.1.simulation.jitter := by
  rcases hrun : v.simulation.running with - | -
  · rwa [advance_of_resting hrun]
  · rw [advance_of_running hrun, Simulation.jitter_rested]
    exact Simulation.reached_step h

/-- Every action draws samples one after the other, or starts with the first. -/
theorem reached_perform (h : Reached v.simulation.jitter) (action : Action F) :
    Reached (v.perform action).1.simulation.jitter := by
  have hgesture : ∀ {s : Simulation F}, Simulation.Gestured v.simulation s → Reached s.jitter :=
    fun hs => hs.jitter ▸ h
  -- only advancing draws samples; gestures leave the generator, the rest may start it again
  cases action with
  | setDataset records => exact .initial
  | resize viewport =>
    rcases heq : viewport == v.viewport with - | -
    · rw [perform, resize_of_ne heq]
      exact .initial
    · rwa [perform, resize_of_eq heq]
  | advance => exact reached_advance h
  | settle most =>
    exact settle_induction (P := fun v => Reached v.simulation.jitter)
      (fun _ => reached_advance) h most
  | dragStart node pointer => exact hgesture (v.drag.gestured_start _ node pointer)
  | grab node pointer => exact hgesture (v.drag.gestured_grab _ node pointer)
  | dragMove node pointer => exact hgesture (v.drag.gestured_move _ node pointer)
  | dragEnd node => exact hgesture (v.drag.gestured_finish _ node)

theorem reached_run (h : Reached v.simulation.jitter) (history : List (Action F)) :
    Reached (v.run history).simulation.jitter := by
  induction history generalizing v with
  | nil => exact h
  | cons action rest ih => exact ih (reached_perform h action)

end View

end

/-! ### Coinciding nodes -/

namespace Jitter

open Single

/-- **Samples keep coinciding nodes apart.**

* The generator of a view comes of the initial one, whatever has happened to the view.
* Its states stay below `2 ^ 32`, and computing with words of 64 bits does not overflow.
* The part of the modulus is the exact one, rounded once.  It is one half, and the sample zero,
  right in the middle and nowhere else.
* Of two samples in a row, one is not zero.
* So a force that sees two points at no distance on either axis goes on with a difference, and
  changes velocities by a multiple of it: a link between two nodes, two discs that overlap, and a
  body that acts on a node. -/
theorem keeps_apart :
    (∀ (records : List Record) (viewport : Viewport Float32) (config : Config Float32)
      (history : List (View.Action Float32)),
      Reached ((View.ofRecords records viewport config).run history).simulation.jitter) ∧
    (∀ j : Jitter, Reached j → j.state < 2 ^ 32 ∧ 1664525 * j.state < 2 ^ 64 ∧
      1664525 * j.state + 1013904223 < 2 ^ 64 ∧
      ((1664525 * UInt64.ofNat j.state + 1013904223) % 4294967296).toNat = j.next.state) ∧
    (∀ j : Jitter, Rounds (j.next.state / 2 ^ 32 : ℝ) (j.next.uniform : Float32) ∧
      ((j.next.uniform == (0.5 : Float32)) = true ↔
        2 ^ 31 - 64 ≤ j.next.state ∧ j.next.state ≤ 2 ^ 31 + 128) ∧
      (IsZero (j.sample (F := Float32)).1 ↔
        2 ^ 31 - 64 ≤ j.next.state ∧ j.next.state ≤ 2 ^ 31 + 128)) ∧
    (∀ j : Jitter, ¬ (IsZero (j.sample (F := Float32)).1 ∧
      IsZero ((j.sample (F := Float32)).2.sample (F := Float32)).1)) ∧
    (∀ (distance alpha : Float32) (b : Bodies Float32) (link : Link Float32)
      (spring : Spring Float32) (source target : Node Float32), link.isLoop = false →
      b.nodes[link.source]? = some source → b.nodes[link.target]? = some target →
      (target.ahead - source.ahead == .zero) = true →
      let seen := b.jitter.apart (target.ahead - source.ahead) 0
      let change := Spring.correction distance alpha spring seen.1
      seen.1.OffZero ∧ Spring.act distance alpha b link spring =
        { (b.modify link.target (·.pulled (change * spring.bias))).modify link.source
            (·.pushed (change * (1 - spring.bias))) with jitter := seen.2.2 }) ∧
    (∀ (c : Collision Float32) (index other : Nat) (place : Vec Float32) (b : Bodies Float32)
      (node : Node Float32), index < other → b.nodes[other]? = some node →
      ¬ c.reach * c.reach ≤ (place - node.ahead).lengthSq →
      (place - node.ahead == .zero) = true →
      let seen := b.jitter.apart (place - node.ahead) (place - node.ahead).lengthSq
      let change := c.push seen.1 seen.2.1
      seen.1.OffZero ∧ c.meet index place b other =
        { (b.modify index (·.pushed (change * (0.5 : Float32)))).modify other
            (·.pulled (change * (0.5 : Float32))) with jitter := seen.2.2 }) ∧
    (∀ (c : Charge Float32) (j : Jitter) (delta : Vec Float32) (weight : Float32),
      (delta == .zero) = true →
      let seen := j.apart delta delta.lengthSq
      seen.1.OffZero ∧
        c.between j delta weight = (c.repulsion weight seen.1 seen.2.1, seen.2.2)) := by
  have hstate : ∀ j : Jitter, j.next.state ≤ 2 ^ 32 := fun j => (state_next_lt j).le
  have hzero : ∀ j : Jitter, IsZero (j.sample (F := Float32)).1 ↔ j.next.Middle :=
    fun j => isZero_sampled_iff (hstate j)
  refine ⟨fun records viewport config history => View.reached_run .initial history,
    fun j hj => ?_, fun j => ?_, fun j => ?_, ?_, ?_, ?_⟩
  · have hlt := hj.state_lt
    exact ⟨hlt, by omega, by omega, toNat_words j⟩
  · exact ⟨uniform_rounds (hstate j), uniform_beq_half_iff (hstate j), hzero j⟩
  · rintro ⟨hfirst, hsecond⟩
    exact ((hzero j).mp hfirst).not_next ((hzero j.next).mp hsecond)
  · intro distance alpha b link spring source target hloop hsource htarget hdelta
    exact ⟨offZero_apart _ hdelta _,
      Spring.act_eq_correction distance alpha spring hloop hsource htarget⟩
  · intro c index other place b node hlt hnode hnear hdelta
    exact ⟨offZero_apart _ hdelta _, c.meet_eq_push hlt hnode hnear⟩
  · intro c j delta weight hdelta
    exact ⟨offZero_apart _ hdelta _, c.between_eq_repulsion j delta weight⟩

/-- Two nodes that will be at one point, and a generator that gives zero next: the link and the
discs go on with a difference on the second axis only. -/
theorem keeps_apart_of_zero_sample :
    let j : Jitter := ⟨369259109⟩
    let a : Node Float32 := ⟨"a", ⟨3, 4⟩, ⟨0, 0⟩, none⟩
    let b : Node Float32 := ⟨"b", ⟨1, 2⟩, ⟨2, 2⟩, none⟩
    let bodies : Bodies Float32 := ⟨#[a, b], j⟩
    let collision : Collision Float32 := ⟨30, 0.7, 1⟩
    let seen := j.apart (a.ahead - b.ahead) (a.ahead - b.ahead).lengthSq
    let asked := Spring.correction 90 1 ⟨1, 0.5⟩ (j.apart (b.ahead - a.ahead) 0).1
    let push := collision.push seen.1 seen.2.1
    Jitter.initial.next.state < 2 ^ 32 ∧ IsZero (j.sample (F := Float32)).1 ∧
      IsZero seen.1.x ∧ seen.1.OffZero ∧
      Spring.act 90 1 bodies ⟨0, 1, .response, .straight, .zero⟩ ⟨1, 0.5⟩ =
        { (bodies.modify 1 (·.pulled (asked * (0.5 : Float32)))).modify 0
            (·.pushed (asked * (1 - 0.5 : Float32))) with jitter := j.next.next } ∧
      collision.meet 0 a.ahead bodies 1 =
        { (bodies.modify 0 (·.pushed (push * (0.5 : Float32)))).modify 1
            (·.pulled (push * (0.5 : Float32))) with jitter := j.next.next } := by
  intro j a b bodies collision seen asked push
  obtain ⟨-, hstates, hsamples, -, hlink, hdisc, -⟩ := keeps_apart
  have hzero : IsZero (j.sample (F := Float32)).1 := (hsamples j).2.2.mpr (by decide)
  have hba : (b.ahead - a.ahead == .zero) = true := by decide +kernel
  have hab : (a.ahead - b.ahead == .zero) = true := by decide +kernel
  obtain ⟨hx, hjitter⟩ := apart_of_zero j hab (a.ahead - b.ahead).lengthSq
  obtain ⟨-, hlinked⟩ :=
    hlink 90 1 bodies ⟨0, 1, .response, .straight, .zero⟩ ⟨1, 0.5⟩ a b rfl rfl rfl hba
  obtain ⟨hoff, hmet⟩ :=
    hdisc collision 0 1 a.ahead bodies b Nat.zero_lt_one rfl (by decide +kernel) hab
  refine ⟨(hstates _ (.next .initial)).1, hzero, ?_, hoff, ?_, ?_⟩
  · exact (congrArg (IsZero ·.x) hx).mpr hzero
  · rw [hlinked, (apart_of_zero j hba 0).2]
  · rw [hmet, hjitter]

end Jitter

end ForceDiagram
