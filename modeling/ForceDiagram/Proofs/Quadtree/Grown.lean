/-
ForceDiagram/Proofs/Quadtree/Grown.lean

How the square around points grows.

The side starts at one and is doubled while the square falls short of the greatest corner.  This
needs no limit (`Grows`): after 128 doublings the side is infinite, and a square with an infinite
side reaches every finite corner, wherever it starts.  So the limit that `Square.grow` has is never
what ends the doubling (`Grows.grow_eq`).

Sums with the side are rounded, and may be the same for one side and the next.  But where the
doubling ends the rounded sums do not fall short, and it is these that say which points the square
contains.

Main result: `cover?_by_doubling`.
-/
import ForceDiagram.Proofs.Quadtree.Covered
import ForceDiagram.Proofs.Scalar.Floor
import ForceDiagram.Proofs.Scalar.Quotients

namespace ForceDiagram

open Scalar

namespace Square

section

variable {F : Type} [Scalar F] {low high : Vec F} {size final : F} {k : ℕ}

/-! ### Doubling a side -/

/-- A square of this side does not reach the greatest corner. -/
def Short (low high : Vec F) (size : F) : Prop :=
  low.x + size < high.x ∨ low.y + size < high.y

/-- `Grows low high size k final`: doubling a side while the square falls short ends after `k`
doublings. -/
inductive Grows (low high : Vec F) : F → ℕ → F → Prop where
  | enough {size : F} (h : ¬ Short low high size) : Grows low high size 0 size
  | double {size final : F} {k : ℕ} (h : Short low high size)
      (hrest : Grows low high (size * 2) k final) : Grows low high size (k + 1) final

/-- A limit does not matter that is not reached. -/
theorem Grows.grow_eq (h : Grows low high size k final) {limit : ℕ} (hlimit : k ≤ limit) :
    grow low high limit size = final := by
  induction h generalizing limit with
  | enough h =>
    cases limit with
    | zero => rfl
    | succ limit => exact if_neg h
  | double h _ ih =>
    cases limit with
    | zero => exact absurd hlimit (Nat.not_succ_le_zero _)
    | succ limit => exact (if_pos h).trans (ih (Nat.le_of_succ_le_succ hlimit))

theorem Grows.not_short (h : Grows low high size k final) : ¬ Short low high final := by
  induction h with
  | enough h => exact h
  | double _ _ ih => exact ih

/-- A side that is enough after some doublings is reached after no more of them. -/
theorem exists_grows {n : ℕ} (h : ¬ Short low high ((· * 2)^[n] size)) :
    ∃ k ≤ n, Grows low high size k ((· * 2)^[k] size) := by
  induction n generalizing size with
  | zero => exact ⟨0, le_rfl, .enough h⟩
  | succ n ih =>
    by_cases hshort : Short low high size
    · obtain ⟨k, hk, hgrows⟩ := ih h
      exact ⟨k + 1, Nat.succ_le_succ hk, .double hshort hgrows⟩
    · exact ⟨0, Nat.zero_le _, .enough hshort⟩

/-! ### Points between the bounds -/

/-- A point with numbers is between the bounds. -/
theorem bounds_between (h : Preordered F) {first : Vec F} {rest : List (Vec F)} {p : Vec F}
    (hp : p ∈ first :: rest) (hx : isNumber p.x = true) (hy : isNumber p.y = true) :
    ((bounds first rest).1.x ≤ p.x ∧ p.x ≤ (bounds first rest).2.x) ∧
      (bounds first rest).1.y ≤ p.y ∧ p.y ≤ (bounds first rest).2.y := by
  rw [bounds_eq]
  exact ⟨h.extremes_between (List.mem_map_of_mem (f := (·.x)) hp) hx,
    h.extremes_between (List.mem_map_of_mem (f := (·.y)) hp) hy⟩

/-- The bounds of finite points are finite. -/
theorem isFinite_bounds (h : Preordered F) {first : Vec F} {rest : List (Vec F)}
    (hfinite : ∀ p ∈ first :: rest, p.isFinite = true) :
    (bounds first rest).1.isFinite = true ∧ (bounds first rest).2.isFinite = true := by
  have haxis : ∀ f : Vec F → F, (∀ p ∈ first :: rest, isFinite (f p) = true) →
      isFinite ((rest.map f).foldl lesser (f first)) = true ∧
        isFinite ((rest.map f).foldl greater (f first)) = true := by
    intro f hf
    have hnumber := h.isNumber_of_isFinite (hf first List.mem_cons_self)
    exact (h.isFinite_extremes_iff _ _).mpr ((spanned_map f (first :: rest)).mpr
      ⟨⟨first, List.mem_cons_self, hnumber⟩, fun p hp _ => hf p hp⟩)
  have hx := haxis (·.x) fun p hp => (Bool.and_eq_true_iff.mp (hfinite p hp)).1
  have hy := haxis (·.y) fun p hp => (Bool.and_eq_true_iff.mp (hfinite p hp)).2
  rw [bounds_eq]
  exact ⟨Bool.and_eq_true_iff.mpr ⟨hx.1, hy.1⟩, Bool.and_eq_true_iff.mpr ⟨hx.2, hy.2⟩⟩

end

/-! ### Sides in single precision -/

open Single

theorem abs_two_pow_lt {k : ℕ} (hk : k < 128) : |(2 : ℝ) ^ k| < 2 ^ 128 := by
  rw [abs_of_pos (by positivity)]
  exact pow_lt_pow_right₀ one_lt_two hk

/-- The sides are the powers of two, as long as there is room for these. -/
theorem value?_doubled {k : ℕ} (hk : k ≤ 128) :
    value? ((· * 2)^[k] (1 : Float32)) = some (clip ((2 ^ k : ℝ) : EReal)) := by
  induction k with
  | zero =>
    rw [clip_of_abs_lt (by norm_num), pow_zero]
    exact value?_one
  | succ k ih =>
    have hlast := ih (by omega)
    rw [clip_of_abs_lt (abs_two_pow_lt (by omega))] at hlast
    have htwo : value? (2 : Float32) = some ((2 : ℝ) : EReal) := by
      have h := value?_ofNat (m := 1) (j := 1) (by norm_num) (by norm_num)
      rw [one_mul, pow_one, Nat.cast_ofNat] at h
      exact h
    -- a power of two has one digit, which rounding keeps
    have hself : Rounded (2 ^ (k + 1)) (2 ^ (k + 1)) := by
      have h := rounded_self (m := 1) (by norm_num) (e := (k + 1 : ℕ)) (by omega)
      rwa [Nat.cast_one, one_mul, zpow_natCast] at h
    obtain ⟨v, hv, hvalue⟩ := mul_rounds hlast htwo
    rw [← pow_succ] at hv
    rw [Function.iterate_succ_apply', hvalue, hv.unique (.real hself)]

/-- The side after 128 doublings is infinite. -/
theorem value?_doubled_limit : value? ((· * 2)^[128] (1 : Float32)) = some ⊤ := by
  rw [value?_doubled le_rfl, clip_of_le le_rfl]

/-- An infinite side is enough for finite corners. -/
theorem not_short_of_infinite {low high : Vec Float32} (hlow : low.isFinite = true)
    (hhigh : high.isFinite = true) {size : Float32} (hsize : value? size = some ⊤) :
    ¬ Short low high size := by
  have haxis : ∀ {a b : Float32}, isFinite a = true → isFinite b = true → ¬ a + size < b := by
    intro a b ha hb hlt
    obtain ⟨r, hr⟩ := isFinite_iff_value?.mp ha
    obtain ⟨s, hs⟩ := isFinite_iff_value?.mp hb
    obtain ⟨v, hv, hsum⟩ := finite_add_rounds hr hsize
    rw [EReal.coe_add_top] at hv
    rw [hv.unique .top, clip_top] at hsum
    exact (preordered.lt_iff.mp hlt).2.2 ((le_iff_of_value? hs hsum).mpr le_top)
  obtain ⟨hx, hy⟩ := Bool.and_eq_true_iff.mp hlow
  obtain ⟨hx', hy'⟩ := Bool.and_eq_true_iff.mp hhigh
  rintro (hlt | hlt)
  · exact haxis hx hx' hlt
  · exact haxis hy hy' hlt

/-- Where a square does not fall short of the greatest corner, it reaches it. -/
theorem le_max_of_not_short {low high : Vec Float32} (hlow : low.isFinite = true)
    (hhigh : high.isFinite = true) {size : Float32} {v : EReal} (hsize : value? size = some v)
    (h : ¬ Short low high size) :
    high.x ≤ low.x + size ∧ high.y ≤ low.y + size := by
  have haxis : ∀ {a b : Float32}, isFinite a = true → isFinite b = true → ¬ a + size < b →
      b ≤ a + size := by
    intro a b ha hb hlt
    obtain ⟨r, hr⟩ := isFinite_iff_value?.mp ha
    -- the sum is a number, and numbers can all be compared
    obtain ⟨w, -, hsum⟩ := finite_add_rounds hr hsize
    have hnumber : isNumber (a + size) = true := isNumber_iff_value?.mpr ⟨_, hsum⟩
    by_contra hle
    exact hlt (preordered.lt_iff.mpr ⟨hnumber, preordered.isNumber_of_isFinite hb, hle⟩)
  obtain ⟨hx, hy⟩ := Bool.and_eq_true_iff.mp hlow
  obtain ⟨hx', hy'⟩ := Bool.and_eq_true_iff.mp hhigh
  obtain ⟨hnx, hny⟩ := not_or.mp h
  exact ⟨haxis hx hx' hnx, haxis hy hy' hny⟩

/-- **Doubling a side ends with a square around the points.**  Around points with finite
coordinates, of which there is at least one, the side is doubled 128 times at most.  The square
that this ends with, the same with every limit that lets it end, contains all points, and its side
is a power of two, or after 128 doublings infinite. -/
theorem cover?_by_doubling (first : Vec Float32) (rest : List (Vec Float32))
    (hfinite : ∀ p ∈ first :: rest, p.isFinite = true) :
    let low := (bounds first rest).1
    let high := (bounds first rest).2
    let corner : Vec Float32 := ⟨Scalar.floor low.x, Scalar.floor low.y⟩
    ∃ (k : ℕ) (size : Float32), k ≤ 128 ∧ Grows corner high 1 k size ∧
      (∀ limit, k ≤ limit → grow corner high limit 1 = size) ∧
      cover? (first :: rest) = some ⟨corner, size⟩ ∧
      (∀ p ∈ first :: rest, contains ⟨corner, size⟩ p = true) ∧
      value? size = some (if k < 128 then ((2 ^ k : ℝ) : EReal) else ⊤) := by
  intro low high corner
  obtain ⟨hlow, hhigh⟩ : low.isFinite = true ∧ high.isFinite = true :=
    isFinite_bounds preordered hfinite
  obtain ⟨hx, hy⟩ := Bool.and_eq_true_iff.mp hlow
  have hcorner : corner.isFinite = true :=
    Bool.and_eq_true_iff.mpr ⟨isFinite_floor hx, isFinite_floor hy⟩
  obtain ⟨k, hk, hgrows⟩ :=
    exists_grows (not_short_of_infinite hcorner hhigh value?_doubled_limit)
  have hvalue := value?_doubled hk
  obtain ⟨hxmax, hymax⟩ := le_max_of_not_short hcorner hhigh hvalue hgrows.not_short
  refine ⟨k, _, hk, hgrows, fun limit hlimit => hgrows.grow_eq hlimit, ?_, fun p hp => ?_, ?_⟩
  · rw [← hgrows.grow_eq hk]
    exact if_pos (Bool.and_eq_true_iff.mpr ⟨hlow, hhigh⟩)
  · obtain ⟨hpx, hpy⟩ := Bool.and_eq_true_iff.mp (hfinite p hp)
    obtain ⟨⟨hxlow, hxhigh⟩, hylow, hyhigh⟩ := bounds_between preordered hp
      (preordered.isNumber_of_isFinite hpx) (preordered.isNumber_of_isFinite hpy)
    have hleft := preordered.le_trans (floor_le hx) hxlow
    have hright := preordered.le_trans hxhigh hxmax
    have htop := preordered.le_trans (floor_le hy) hylow
    have hbottom := preordered.le_trans hyhigh hymax
    simp only [contains, Bool.and_eq_true, decide_eq_true_eq]
    exact ⟨⟨⟨hleft, hright⟩, htop⟩, hbottom⟩
  · rw [hvalue]
    split
    · next hlt => rw [clip_of_abs_lt (abs_two_pow_lt hlt)]
    · next hge => rw [clip_of_le (pow_le_pow_right₀ one_le_two (not_lt.mp hge))]

/-- Two points so far apart that no finite side is enough. -/
theorem cover?_by_doubling_of_far_points :
    let first : Vec Float32 := ⟨-3e38, 0.5⟩
    let rest : List (Vec Float32) := [⟨3e38, 2.25⟩]
    let square : Square Float32 := ⟨⟨-3e38, 0⟩, 1 / 0⟩
    (∀ p ∈ first :: rest, p.isFinite = true) ∧ cover? (first :: rest) = some square ∧
      Grows square.min (bounds first rest).2 1 128 square.size ∧
      ∀ p ∈ first :: rest, square.contains p = true := by
  intro first rest square
  have hfinite : ∀ p ∈ first :: rest, p.isFinite = true := by decide +kernel
  obtain ⟨k, size, hk, hgrows, hlimit, hcover, hcontains, hvalue⟩ :=
    cover?_by_doubling first rest hfinite
  have hx : Scalar.floor (bounds first rest).1.x = -3e38 := by decide +kernel
  have hy : Scalar.floor (bounds first rest).1.y = 0 := by decide +kernel
  have hgrown : grow ⟨-3e38, 0⟩ (bounds first rest).2 128 1 = square.size := by decide +kernel
  rw [hx, hy] at hgrows hlimit hcover hcontains
  obtain rfl : square.size = size := hgrown.symm.trans (hlimit 128 hk)
  have hinfinite : value? (1 / 0 : Float32) = some ⊤ := rfl
  obtain rfl : k = 128 := by
    refine hk.antisymm (not_lt.mp fun hlt => ?_)
    rw [if_pos hlt] at hvalue
    exact EReal.coe_ne_top _ (Option.some.inj (hinfinite.symm.trans hvalue)).symm
  exact ⟨hfinite, hcover, hgrows, hcontains⟩

end Square

end ForceDiagram
