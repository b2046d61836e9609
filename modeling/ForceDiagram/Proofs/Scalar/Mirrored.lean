/-
ForceDiagram/Proofs/Scalar/Mirrored.lean

What is the same on both sides of zero.

`Scalar.Mirrored` lists what may be taken for granted of signs.  A difference taken the other way
round is the opposite one, a factor hands its sign on to the product, and a quotient does not see
that both its arguments are negated.  All this is exact in rounded numbers, but for the sign of a
zero: so two numbers are called opposite if one is the negative of the other or both are zeros
(`Opposite`).  Zeros are equal, and what is computed from either of them is.

Numbers in single precision have these laws (`Single.mirrored`).
-/
import ForceDiagram.Proofs.Scalar.Signs

namespace ForceDiagram

namespace Scalar

variable {F : Type} [Scalar F]

/-- A zero of either sign. -/
def IsZero (a : F) : Prop := (a == 0) = true

/-- `Opposite a b`: the second number is the negative of the first, up to the sign of a zero. -/
def Opposite (a b : F) : Prop := b = -a ∨ IsZero a ∧ IsZero b

/-- What is turned round comes out negated, and the sign of a zero makes no difference but to the
sign of a zero. -/
structure Mirrored (F : Type) [Scalar F] : Prop where
  isNumber_of_isFinite : ∀ {a : F}, isFinite a = true → isNumber a = true
  isNumber_neg : ∀ {a : F}, isNumber a = true → isNumber (-a) = true
  isFinite_neg : ∀ {a : F}, isFinite a = true → isFinite (-a) = true
  isZero_zero : IsZero (0 : F)
  isZero_neg_iff : ∀ {a : F}, IsZero (-a) ↔ IsZero a
  beq_of_isZero : ∀ {a b : F}, IsZero a → IsZero b → (a == b) = true
  add_isZero : ∀ {a b : F}, isNumber a = true → IsZero b → (a + b == a) = true
  opposite_sub : ∀ a b : F, Opposite (a - b) (b - a)
  neg_mul : ∀ a b : F, -a * b = -(a * b)
  isZero_mul : ∀ {a b : F}, IsZero a → isFinite b = true → IsZero (a * b)
  mul_isZero : ∀ {a b : F}, isFinite a = true → IsZero b → IsZero (a * b)
  isNumber_mul : ∀ {a b : F}, isFinite a = true → isFinite b = true → isNumber (a * b) = true
  isFinite_one_mul : ∀ {a : F}, isFinite a = true → isFinite (1 * a) = true
  neg_div_neg : ∀ a b : F, -a / -b = a / b
  isZero_div : ∀ {a b : F}, IsZero a → isFinite b = true → ¬ IsZero b → IsZero (a / b)
  isNumber_div : ∀ {a b : F}, isFinite a = true → isFinite b = true → ¬ IsZero b →
    isNumber (a / b) = true
  isFinite_quarter : ∀ {a : F}, isFinite a = true → isFinite (a / 4) = true

end Scalar

namespace Single

open Float.Model Float.Model.UnpackedFloat Scalar

/-! ### Zeros and numbers -/

theorem unpack_zero : (0 : Float32).toModel.unpack = .zero .positive := rfl

theorem isZero_iff {x : Float32} : IsZero x ↔ ∃ s, x.toModel.unpack = .zero s := by
  show UnpackedFloat.beq x.toModel.unpack (0 : Float32).toModel.unpack = true ↔ _
  rw [unpack_zero]
  cases x.toModel.unpack with
  | notANumber => simp [UnpackedFloat.beq, UnpackedFloat.compare]
  | infinity s => cases s <;> simp [UnpackedFloat.beq, UnpackedFloat.compare]
  | zero s => exact iff_of_true rfl ⟨s, rfl⟩
  | finite s m e hm => cases s <;> simp [UnpackedFloat.beq, UnpackedFloat.compare]

theorem isFinite_of_isZero {x : Float32} (h : IsZero x) : Scalar.isFinite x = true := by
  obtain ⟨s, hs⟩ := isZero_iff.mp h
  show x.toModel.unpack.isFinite = true
  rw [hs]
  rfl

theorem isNumber_iff {x : Float32} : isNumber x = true ↔ x.toModel.unpack ≠ .notANumber := by
  rw [isNumber_eq, rank?]
  cases x.toModel.unpack with
  | notANumber => simp [rankOf]
  | infinity s => cases s <;> simp [rankOf]
  | zero s => simp [rankOf]
  | finite s m e hm => cases s <;> simp [rankOf]

theorem isZero_ofModel_pack {u : UnpackedFloat} (h : ∃ s, u = .zero s) :
    IsZero (Float32.ofModel (.pack u)) := by
  obtain ⟨s, rfl⟩ := h
  exact isZero_iff.mpr ⟨s, unpack_packedZero⟩

theorem unpack_four : (4 : Float32).toModel.unpack = .finite .positive (2 ^ 23) (-21) (by decide) :=
  rfl

/-- **Numbers in single precision are the same on both sides of zero.** -/
theorem mirrored : Mirrored Float32 where
  isNumber_of_isFinite := preordered.isNumber_of_isFinite
  isNumber_neg := by
    intro x hx
    rw [isNumber_iff] at hx ⊢
    rw [unpack_neg]
    match x.toModel.unpack, hx with
    | .infinity _, _ => nofun
    | .zero _, _ => nofun
    | .finite .., _ => nofun
    | .notANumber, hx => exact absurd rfl hx
  isFinite_neg := by
    intro x hx
    show (-x).toModel.unpack.isFinite = true
    have hx : x.toModel.unpack.isFinite = true := hx
    rw [unpack_neg]
    match x.toModel.unpack, hx with
    | .zero _, _ => rfl
    | .finite .., _ => rfl
  isZero_zero := isZero_iff.mpr ⟨.positive, unpack_zero⟩
  isZero_neg_iff := by
    intro x
    rw [isZero_iff, isZero_iff, unpack_neg]
    match x.toModel.unpack with
    | .zero s => exact iff_of_true ⟨_, rfl⟩ ⟨_, rfl⟩
    | .infinity _ => exact iff_of_false nofun nofun
    | .notANumber => exact iff_of_false nofun nofun
    | .finite .. => exact iff_of_false nofun nofun
  beq_of_isZero := by
    intro x y hx hy
    obtain ⟨s, hx⟩ := isZero_iff.mp hx
    obtain ⟨t, hy⟩ := isZero_iff.mp hy
    exact beq_iff_rank?.mpr ⟨_, by rw [rank?, hx, rankOf], by rw [rank?, hy, rankOf]⟩
  add_isZero := by
    intro x y hx hy
    obtain ⟨s, hy⟩ := isZero_iff.mp hy
    obtain ⟨a, ha⟩ := Option.isSome_iff_exists.mp ((isNumber_eq x).symm.trans hx)
    have hsum : rank? (x + y) = rank? x := by
      show rankOf (UnpackedFloat.unpack .binary32 (UnpackedFloat.pack .binary32
        (UnpackedFloat.add .binary32 x.toModel.unpack y.toModel.unpack))) = _
      rw [hy, rank?]
      exact rankOf_add_zero (stored x) s
    exact beq_iff_rank?.mpr ⟨a, hsum.trans ha, ha⟩
  opposite_sub := by
    intro x y
    rcases sub_comm_cases x.toModel.unpack y.toModel.unpack with hneg | ⟨hzero, hzero'⟩
    · refine .inl ?_
      show Float32.ofModel (.pack _) = -(Float32.ofModel (.pack _))
      rw [hneg, neg_ofModel_pack]
    · exact .inr ⟨isZero_ofModel_pack hzero, isZero_ofModel_pack hzero'⟩
  neg_mul := by
    intro x y
    show Float32.ofModel (.pack (UnpackedFloat.mul .binary32 (-x).toModel.unpack
      y.toModel.unpack)) = -(Float32.ofModel (.pack _))
    rw [unpack_neg, mul_neg_left, neg_ofModel_pack]
  isZero_mul := by
    intro x y hx hy
    obtain ⟨s, hx⟩ := isZero_iff.mp hx
    refine isZero_ofModel_pack ?_
    rw [hx]
    exact zero_mul_finite s hy
  mul_isZero := by
    intro x y hx hy
    obtain ⟨s, hy⟩ := isZero_iff.mp hy
    refine isZero_ofModel_pack ?_
    rw [hy]
    exact finite_mul_zero hx s
  isNumber_mul := by
    intro x y hx hy
    exact isNumber_iff.mpr (unpack_pack_ne_notANumber (mul_ne_notANumber hx hy))
  isFinite_one_mul := by
    intro x hx
    obtain ⟨r, hr⟩ := isFinite_iff_value?.mp hx
    have hone := mul_rounds value?_one hr
    rw [one_mul] at hone
    exact preordered.isFinite_of_between hx hx ((rounds_self hr).le hone le_rfl)
      (hone.le (rounds_self hr) le_rfl)
  neg_div_neg := by
    intro x y
    show Float32.ofModel (.pack (UnpackedFloat.div .binary32 (-x).toModel.unpack
      (-y).toModel.unpack)) = _
    rw [unpack_neg, unpack_neg, div_neg_neg]
    rfl
  isZero_div := by
    intro x y hx hy hne
    obtain ⟨s, hx⟩ := isZero_iff.mp hx
    refine isZero_ofModel_pack ?_
    rw [hx]
    exact zero_div_finite s hy fun t ht => hne (isZero_iff.mpr ⟨t, ht⟩)
  isNumber_div := by
    intro x y hx hy hne
    exact isNumber_iff.mpr (unpack_pack_ne_notANumber
      (div_ne_notANumber hx hy fun t ht => hne (isZero_iff.mpr ⟨t, ht⟩)))
  isFinite_quarter := by
    intro x hx
    have hdiv : (x / 4).toModel.unpack = UnpackedFloat.unpack .binary32 (UnpackedFloat.pack
      .binary32 (UnpackedFloat.div .binary32 x.toModel.unpack (4 : Float32).toModel.unpack)) := rfl
    show (x / 4).toModel.unpack.isFinite = true
    rw [hdiv, unpack_four]
    exact isFinite_div_four (stored x) hx

end Single

end ForceDiagram
