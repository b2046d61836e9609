/-
ForceDiagram/Proofs/Force/Samples.lean

Samples, and why two of them keep points apart.

A sample grows with the state it comes from (`sampled_le`), although it is rounded three times on
the way.  So the states that give zero form an interval, and four samples tell which
(`isZero_sampled_iff`): those right in the middle, of which the part of the modulus is rounded to
one half.  From all of these the generator leads out of the middle (`Middle.not_next`), and that
is why of two samples in a row one is not zero.

A force that sees two points at no distance on either axis draws two samples in a row.  What it
does then is written as a function of the difference it goes on with (`act_eq_correction`,
`meet_eq_push`, `between_eq_repulsion`).
-/
import ForceDiagram.Force.Collision
import ForceDiagram.Force.Spring
import ForceDiagram.Proofs.Force.Sources
import ForceDiagram.Proofs.Scalar.Isotone
import ForceDiagram.Proofs.Scalar.Mirrored
import ForceDiagram.Proofs.Scalar.Quotients

namespace ForceDiagram

open Scalar

/-- A finite vector other than zero. -/
def Vec.OffZero {F : Type} [Scalar F] (v : Vec F) : Prop :=
  v.isFinite = true ∧ (v == .zero) = false

namespace Jitter

/-! ### States -/

/-- The generators that come of the initial one. -/
inductive Reached : Jitter → Prop where
  | initial : Reached .initial
  | next {j : Jitter} (h : Reached j) : Reached j.next

/-- A state right in the middle, from which the sample is zero. -/
def Middle (j : Jitter) : Prop := 2 ^ 31 - 64 ≤ j.state ∧ j.state ≤ 2 ^ 31 + 128

theorem state_next (j : Jitter) :
    j.next.state = (1664525 * j.state + 1013904223) % 2 ^ 32 := rfl

theorem state_next_lt (j : Jitter) : j.next.state < 2 ^ 32 := Nat.mod_lt _ (by decide)

theorem Reached.state_lt {j : Jitter} (h : Reached j) : j.state < 2 ^ 32 := by
  cases h with
  | initial => decide
  | next => exact state_next_lt _

/-- The next state as it is computed with words of 64 bits. -/
theorem toNat_words (j : Jitter) :
    ((1664525 * UInt64.ofNat j.state + 1013904223) % 4294967296).toNat = j.next.state := by
  rw [state_next]
  simp

/-- No state in the middle is followed by another. -/
theorem Middle.not_next {j : Jitter} (h : j.Middle) : ¬ j.next.Middle := by
  obtain ⟨hlow, hhigh⟩ := h
  -- from all of the middle the modulus is taken off equally often
  have hoften : (1664525 * j.state + 1013904223) / 2 ^ 32 = 832262 := by omega
  have hstate := state_next j
  rintro ⟨-, hhigh'⟩
  omega

/-! ### Samples in single precision -/

open Single

theorem value?_modulus :
    value? (Scalar.ofNat modulus : Float32) = some ((2 ^ 32 : ℝ) : EReal) := by
  have h := value?_ofNat (m := 1) (j := 32) (by norm_num) (by norm_num)
  rw [one_mul, Nat.cast_pow, Nat.cast_ofNat] at h
  exact h

/-- The part of the modulus is the exact one, rounded. -/
theorem uniform_rounds {j : Jitter} (h : j.state ≤ 2 ^ 32) :
    Rounds (j.state / 2 ^ 32 : ℝ) (j.uniform : Float32) := by
  have hcount := ofNat_rounds j.state
  have hfinite : isFinite (Scalar.ofNat j.state : Float32) = true := by
    refine preordered.isFinite_of_between (a := 0) (b := Scalar.ofNat modulus) (by decide +kernel)
      (isFinite_iff_value?.mpr ⟨_, value?_modulus⟩) (rounds_zero.le hcount ?_)
      (hcount.le (ofNat_rounds modulus) ?_)
    · exact_mod_cast Nat.zero_le j.state
    · exact_mod_cast h
  obtain ⟨v, hv, hvalue⟩ := hcount.exists_rounded hfinite
  -- dividing by a power of two moves the digits, so nothing is rounded twice
  have hmoved : Rounded (j.state / 2 ^ 32) (v / 2 ^ 32) := by
    rcases j.state.eq_zero_or_pos with hzero | hpos
    · rw [hzero, Nat.cast_zero] at hv
      obtain rfl : v = 0 := by exact_mod_cast (Near.real hv).unique (.real rounded_zero)
      rw [hzero, Nat.cast_zero, zero_div]
      exact rounded_zero
    · refine hv.div_two_pow ?_
      have hone : (1 : ℝ) ≤ j.state := by exact_mod_cast hpos
      rw [Nat.abs_cast]
      exact (zpow_le_one_of_nonpos₀ one_le_two (by norm_num)).trans hone
  obtain ⟨w, hw, hquotient⟩ := div_rounds hvalue value?_modulus (by positivity)
  rw [hw.unique (.real hmoved.self)] at hquotient
  exact ⟨_, .real hmoved, hquotient⟩

/-- A greater state gives no lesser part of the modulus. -/
theorem uniform_le {i j : Jitter} (hij : i.state ≤ j.state) (hj : j.state ≤ 2 ^ 32) :
    (i.uniform : Float32) ≤ j.uniform := by
  refine (uniform_rounds (hij.trans hj)).le (uniform_rounds hj) (EReal.coe_le_coe ?_)
  have hcast : (i.state : ℝ) ≤ j.state := by exact_mod_cast hij
  gcongr

/-- The sample that a state gives. -/
def sampled (j : Jitter) : Float32 := (j.uniform - 0.5) * 1e-6

theorem sample_fst (j : Jitter) : (j.sample (F := Float32)).1 = j.next.sampled := rfl

theorem isFinite_of_ends {f : Jitter → Float32} {j : Jitter} (hj : j.state ≤ 2 ^ 32)
    (hf : ∀ {i j : Jitter}, i.state ≤ j.state → j.state ≤ 2 ^ 32 → f i ≤ f j)
    (hends : isFinite (f ⟨0⟩) = true ∧ isFinite (f ⟨2 ^ 32⟩) = true) : isFinite (f j) = true :=
  preordered.isFinite_of_between hends.1 hends.2 (hf (Nat.zero_le _) hj) (hf hj le_rfl)

theorem uniform_sub_le {i j : Jitter} (hij : i.state ≤ j.state) (hj : j.state ≤ 2 ^ 32) :
    i.uniform - (0.5 : Float32) ≤ j.uniform - 0.5 :=
  isotone.sub_le_sub_right (by decide +kernel) (uniform_le hij hj)

/-- A greater state gives no lesser sample. -/
theorem sampled_le {i j : Jitter} (hij : i.state ≤ j.state) (hj : j.state ≤ 2 ^ 32) :
    i.sampled ≤ j.sampled := by
  -- a product keeps the order only of finite numbers, which the differences at both ends are
  have hfinite : ∀ {j : Jitter}, j.state ≤ 2 ^ 32 →
      isFinite (j.uniform - (0.5 : Float32)) = true := fun hj =>
    isFinite_of_ends (f := fun j => j.uniform - 0.5) hj uniform_sub_le (by decide +kernel)
  exact mul_le_mul_right (hfinite (hij.trans hj)) (hfinite hj) (by decide +kernel)
    (by decide +kernel) (uniform_sub_le hij hj)

theorem isFinite_sampled {j : Jitter} (hj : j.state ≤ 2 ^ 32) : isFinite j.sampled = true :=
  isFinite_of_ends hj sampled_le (by decide +kernel)

/-- What grows with the state takes a value in the middle, if it does so at both ends of the middle
and no longer right beside them. -/
theorem beq_iff_middle {f : Jitter → Float32} {a : Float32}
    (hf : ∀ {i j : Jitter}, i.state ≤ j.state → j.state ≤ 2 ^ 32 → f i ≤ f j)
    (hin : a ≤ f ⟨2 ^ 31 - 64⟩ ∧ f ⟨2 ^ 31 + 128⟩ ≤ a)
    (hout : ¬ a ≤ f ⟨2 ^ 31 - 65⟩ ∧ ¬ f ⟨2 ^ 31 + 129⟩ ≤ a) {j : Jitter}
    (hj : j.state ≤ 2 ^ 32) : (f j == a) = true ↔ j.Middle := by
  rw [beq_iff_le]
  constructor
  · rintro ⟨hle, hge⟩
    refine ⟨?_, ?_⟩
    · by_contra hlow
      have hbeside : j.state ≤ 2 ^ 31 - 65 := by omega
      exact hout.1 (preordered.le_trans hge (hf hbeside (by norm_num)))
    · by_contra hhigh
      have hbeside : 2 ^ 31 + 129 ≤ j.state := by omega
      exact hout.2 (preordered.le_trans (hf hbeside hj) hle)
  · rintro ⟨hlow, hhigh⟩
    exact ⟨preordered.le_trans (hf hhigh (by norm_num)) hin.2,
      preordered.le_trans hin.1 (hf hlow hj)⟩

/-- The part of the modulus is rounded to one half in the middle, -/
theorem uniform_beq_half_iff {j : Jitter} (hj : j.state ≤ 2 ^ 32) :
    (j.uniform == (0.5 : Float32)) = true ↔ j.Middle :=
  beq_iff_middle uniform_le (by decide +kernel) (by decide +kernel) hj

/-- and there the sample is zero. -/
theorem isZero_sampled_iff {j : Jitter} (hj : j.state ≤ 2 ^ 32) :
    IsZero j.sampled ↔ j.Middle :=
  beq_iff_middle sampled_le (by decide +kernel) (by decide +kernel) hj

/-! ### Moving a difference off zero -/

/-- Where both differences are zero, two samples in a row take their places. -/
theorem apart_of_zero {F : Type} [Scalar F] (j : Jitter) {delta : Vec F}
    (h : (delta == .zero) = true) (sq : F) :
    (j.apart delta sq).1 = ⟨j.sample.1, j.next.sample.1⟩ ∧
      (j.apart delta sq).2.2 = j.next.next := by
  obtain ⟨hx, hy⟩ : (delta.x == 0) = true ∧ (delta.y == 0) = true := Bool.and_eq_true_iff.mp h
  simp [apart, offZero, sample, hx, hy]

/-- Two points that coincide are seen at a difference. -/
theorem offZero_apart (j : Jitter) {delta : Vec Float32} (h : (delta == .zero) = true)
    (sq : Float32) : (j.apart delta sq).1.OffZero := by
  have hfinite := fun j : Jitter => isFinite_sampled (state_next_lt j).le
  rw [(apart_of_zero j h sq).1, sample_fst, sample_fst]
  refine ⟨Bool.and_eq_true_iff.mpr ⟨hfinite j, hfinite j.next⟩,
    Bool.eq_false_iff.mpr fun hzero => ?_⟩
  obtain ⟨hx, hy⟩ := Bool.and_eq_true_iff.mp hzero
  -- the generator would have been in the middle twice in a row
  have hmiddle := (isZero_sampled_iff (state_next_lt j).le).mp hx
  exact hmiddle.not_next ((isZero_sampled_iff (state_next_lt j.next).le).mp hy)

end Jitter

/-! ### What forces go on with -/

variable {F : Type} [Scalar F]

/-- The correction that a link asks for whose ends are seen at a difference. -/
def Spring.correction (distance alpha : F) (s : Spring F) (delta : Vec F) : Vec F :=
  delta * ((delta.length - distance) / delta.length * alpha * s.strength)

theorem Spring.act_eq_correction (distance alpha : F) {b : Bodies F} {link : Link F}
    (spring : Spring F) {source target : Node F} (hloop : link.isLoop = false)
    (hsource : b.nodes[link.source]? = some source)
    (htarget : b.nodes[link.target]? = some target) :
    let seen := b.jitter.apart (target.ahead - source.ahead) 0
    let change := correction distance alpha spring seen.1
    act distance alpha b link spring =
      { (b.modify link.target (·.pulled (change * spring.bias))).modify link.source
          (·.pushed (change * (1 - spring.bias))) with jitter := seen.2.2 } := by
  simp only [act, hloop, hsource, htarget]
  rfl

/-- The push that two discs give each other that are seen at a difference. -/
def Collision.push (c : Collision F) (delta : Vec F) (lengthSq : F) : Vec F :=
  delta * ((c.reach - Scalar.sqrt lengthSq) / Scalar.sqrt lengthSq * c.strength)

theorem Collision.meet_eq_push (c : Collision F) {index other : Nat} {place : Vec F} {b : Bodies F}
    {node : Node F} (hlt : index < other) (hnode : b.nodes[other]? = some node)
    (hnear : ¬ c.reach * c.reach ≤ (place - node.ahead).lengthSq) :
    let seen := b.jitter.apart (place - node.ahead) (place - node.ahead).lengthSq
    let change := c.push seen.1 seen.2.1
    c.meet index place b other =
      { (b.modify index (·.pushed (change * (0.5 : F)))).modify other
          (·.pulled (change * (0.5 : F))) with jitter := seen.2.2 } := by
  simp only [meet, if_neg (Nat.not_le_of_lt hlt), hnode, if_neg hnear]
  rfl

/-! ### Generators that forces leave -/

namespace Jitter

variable {j : Jitter}

theorem Reached.offZero (h : Reached j) (difference sq : F) :
    Reached (j.offZero difference sq).2.2 := by
  unfold Jitter.offZero
  split
  · exact h.next
  · exact h

theorem Reached.apart (h : Reached j) (delta : Vec F) (sq : F) :
    Reached (j.apart delta sq).2.2 :=
  (h.offZero delta.x sq).offZero delta.y (j.offZero delta.x sq).2.1

omit [Scalar F] in
/-- What each turn leaves reached is so after all of them. -/
theorem reached_foldl {α : Type} {turn : Bodies F → α → Bodies F} {b : Bodies F}
    (hturn : ∀ b a, Reached b.jitter → Reached (turn b a).jitter) (hb : Reached b.jitter)
    (as : List α) : Reached (as.foldl turn b).jitter :=
  List.foldlRecOn as turn (motive := fun b => Reached b.jitter) hb fun b hb a _ => hturn b a hb

end Jitter

open Jitter

theorem Spring.reached_act (distance alpha : F) (link : Link F) (spring : Spring F) {b : Bodies F}
    (h : Reached b.jitter) : Reached (act distance alpha b link spring).jitter := by
  unfold act
  split
  · exact h
  · split
    · next source target _ _ => exact h.apart (target.ahead - source.ahead) 0
    · exact h

theorem Spring.reached_actAll (distance alpha : F) (links : Array (Link F))
    (springs : Array (Spring F)) {b : Bodies F} (h : Reached b.jitter) :
    Reached (actAll distance alpha links springs b).jitter := by
  rw [actAll, ← Array.foldl_toList]
  exact reached_foldl (fun b (pair : Link F × Spring F) hb =>
    reached_act distance alpha pair.1 pair.2 hb) h _

theorem Collision.reached_meet (c : Collision F) (index : Nat) (place : Vec F) {b : Bodies F}
    (other : Nat) (h : Reached b.jitter) : Reached (c.meet index place b other).jitter := by
  unfold meet
  split
  · exact h
  · split
    · exact h
    · next node _ =>
      dsimp only
      split
      · exact h
      · exact h.apart (place - node.ahead) (place - node.ahead).lengthSq

theorem Collision.reached_turn (c : Collision F) (tree : Quadtree F) {b : Bodies F}
    (body : Body F) (h : Reached b.jitter) : Reached (c.turn tree b body).jitter := by
  unfold turn
  split
  · exact h
  · exact reached_foldl (fun b other hb => c.reached_meet _ _ _ hb) h _

theorem Collision.reached_act (c : Collision F) {b : Bodies F} (h : Reached b.jitter) :
    Reached (c.act b).jitter := by
  unfold act
  induction c.rounds generalizing b with
  | zero => exact h
  | succ rounds ih =>
    rw [repeated]
    split
    · exact h
    -- a round that is held goes through all bodies of its tree
    · next b' hb' =>
      obtain ⟨tree, -, rfl⟩ := Option.map_eq_some_iff.mp hb'
      exact ih (reached_foldl (fun b body hb => c.reached_turn tree body hb) h _)

theorem Charge.reached_turn (c : Charge F) (tree : Quadtree F) {b : Bodies F} (body : Body F)
    (h : Reached b.jitter) : Reached (c.turn tree b body).jitter := by
  unfold turn
  split
  · exact h
  · next node _ =>
    exact List.foldlRecOn (c.sources tree body) (c.accumulate body.pos)
      (motive := fun s => Reached s.2) h fun s hs source _ => hs.apart (source.pos - body.pos) _

theorem Charge.reached_act (c : Charge F) {b : Bodies F} (h : Reached b.jitter) :
    Reached (c.act b).jitter := by
  unfold act
  dsimp only
  split
  · exact h
  · exact reached_foldl (fun b body hb => c.reached_turn _ body hb) h _

end ForceDiagram
