/-
ForceDiagram/Proofs/Scalar/Isotone.lean

Operations that keep the order.

`Scalar.Isotone` adds to comparison what may be taken for granted of rounded differences, sums
and squares.  None of these are exact, but all keep the order of what they are made of, a
difference taken the other way round is the opposite one, and a square does not see the sign.
Infinite values are among the numbers; where a difference could be of two of them, one side has
to be finite.

Numbers in single precision have these laws (`Single.isotone`): on values they are those of
exact arithmetic, and rounding keeps the order.
-/
import ForceDiagram.Proofs.Scalar.Values

namespace ForceDiagram

namespace Scalar

/-- Differences, sums and squares keep the order. -/
structure Isotone (F : Type) [Scalar F] : Prop extends Preordered F where
  isNumber_of_le : ∀ {a b : F}, a ≤ b → isNumber a = true ∧ isNumber b = true
  sub_self_nonneg : ∀ {a : F}, isFinite a = true → 0 ≤ a - a
  sub_le_sub_right : ∀ {a b c : F}, isFinite c = true → a ≤ b → a - c ≤ b - c
  sub_le_sub_left : ∀ {a b c : F}, isFinite c = true → a ≤ b → c - b ≤ c - a
  /-- Taken the other way round, a difference is the opposite one. -/
  sub_le_neg_sub : ∀ {a b : F}, isNumber a = true → isFinite b = true → a - b ≤ -(b - a)
  neg_mul_neg : ∀ a : F, -a * -a = a * a
  mul_self_nonneg : ∀ {a : F}, 0 ≤ a → 0 ≤ a * a
  mul_self_le_mul_self : ∀ {a b : F}, 0 ≤ a → a ≤ b → a * a ≤ b * b
  add_le_add : ∀ {a b c d : F}, 0 ≤ a → a ≤ b → 0 ≤ c → c ≤ d → a + c ≤ b + d

end Scalar

namespace Single

open Scalar

theorem rounds_zero : Rounds 0 (0 : Float32) :=
  ⟨0, .real rounded_zero, by rw [value?_zero, clip_zero]⟩

/-- The value of what is not below zero is not below zero. -/
theorem value_nonneg {x : Float32} (h : (0 : Float32) ≤ x) {a : EReal} (ha : value? x = some a) :
    0 ≤ a :=
  (le_iff_of_value? value?_zero ha).mp h

/-- **Numbers in single precision keep the order under differences, sums and squares.** -/
theorem isotone : Scalar.Isotone Float32 where
  toPreordered := preordered
  isNumber_of_le := by
    intro x y hxy
    obtain ⟨a, b, ha, hb, -⟩ := le_iff_value?.mp hxy
    exact ⟨isNumber_iff_value?.mpr ⟨a, ha⟩, isNumber_iff_value?.mpr ⟨b, hb⟩⟩
  sub_self_nonneg := by
    intro x hx
    obtain ⟨r, hr⟩ := isFinite_iff_value?.mp hx
    have hsub := finite_sub_rounds hr hr
    rw [← EReal.coe_sub, sub_self, EReal.coe_zero] at hsub
    exact rounds_zero.le hsub le_rfl
  sub_le_sub_right := by
    intro x y z hz hxy
    obtain ⟨a, b, ha, hb, hle⟩ := le_iff_value?.mp hxy
    obtain ⟨r, hr⟩ := isFinite_iff_value?.mp hz
    exact (sub_finite_rounds ha hr).le (sub_finite_rounds hb hr) (EReal.sub_le_sub hle le_rfl)
  sub_le_sub_left := by
    intro x y z hz hxy
    obtain ⟨a, b, ha, hb, hle⟩ := le_iff_value?.mp hxy
    obtain ⟨r, hr⟩ := isFinite_iff_value?.mp hz
    exact (finite_sub_rounds hr hb).le (finite_sub_rounds hr ha) (EReal.sub_le_sub le_rfl hle)
  sub_le_neg_sub := by
    intro x y hx hy
    obtain ⟨a, ha⟩ := isNumber_iff_value?.mp hx
    obtain ⟨r, hr⟩ := isFinite_iff_value?.mp hy
    -- in exact arithmetic both are the same
    refine (sub_finite_rounds ha hr).le (finite_sub_rounds hr ha).neg (le_of_eq ?_)
    rw [EReal.neg_sub (.inl (EReal.coe_ne_bot r)) (.inl (EReal.coe_ne_top r)), add_comm,
      sub_eq_add_neg]
  neg_mul_neg := neg_mul_neg_self
  mul_self_nonneg := by
    intro x hx
    obtain ⟨o, a, -, ha, -⟩ := le_iff_value?.mp hx
    exact rounds_zero.le (mul_self_rounds ha) (mul_nonneg (value_nonneg hx ha) (value_nonneg hx ha))
  mul_self_le_mul_self := by
    intro x y hx hxy
    obtain ⟨a, b, ha, hb, hle⟩ := le_iff_value?.mp hxy
    have hnonneg := value_nonneg hx ha
    exact (mul_self_rounds ha).le (mul_self_rounds hb)
      (mul_le_mul hle hle hnonneg (hnonneg.trans hle))
  add_le_add := by
    intro x y z w hx hxy hz hzw
    obtain ⟨a, b, ha, hb, hab⟩ := le_iff_value?.mp hxy
    obtain ⟨c, d, hc, hd, hcd⟩ := le_iff_value?.mp hzw
    have hbot : ∀ {v : EReal}, 0 ≤ v → v ≠ ⊥ := fun h => (EReal.bot_lt_zero.trans_le h).ne'
    have ha' := value_nonneg hx ha
    have hc' := value_nonneg hz hc
    have hxz := add_rounds ha hc (fun h => hbot hc' h.2) fun h => hbot ha' h.1
    have hyw := add_rounds hb hd (fun h => hbot (hc'.trans hcd) h.2)
      fun h => hbot (ha'.trans hab) h.1
    exact hxz.le hyw (add_le_add hab hcd)

/-- A factor that is not below zero keeps the order. -/
theorem mul_le_mul_right {x y z : Float32} (hx : isFinite x = true) (hy : isFinite y = true)
    (hz : isFinite z = true) (hnonneg : 0 ≤ z) (hxy : x ≤ y) : x * z ≤ y * z := by
  obtain ⟨r, hr⟩ := isFinite_iff_value?.mp hx
  obtain ⟨s, hs⟩ := isFinite_iff_value?.mp hy
  obtain ⟨t, ht⟩ := isFinite_iff_value?.mp hz
  have hrs : r ≤ s := EReal.coe_le_coe_iff.mp ((le_iff_of_value? hr hs).mp hxy)
  have ht0 : 0 ≤ t := EReal.coe_nonneg.mp (value_nonneg hnonneg ht)
  exact (mul_rounds hr ht).le (mul_rounds hs ht)
    (EReal.coe_le_coe (mul_le_mul_of_nonneg_right hrs ht0))

end Single

end ForceDiagram
