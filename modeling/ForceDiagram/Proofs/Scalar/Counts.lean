/-
ForceDiagram/Proofs/Scalar/Counts.lean

Counts in single precision.

A count is rounded to 24 binary digits, and what is too great for the exponent
becomes infinite.  Either way a count of something is above zero
(`Single.not_ofNat_le_zero`), since nothing from one on is rounded below one.
`Large` says this of numbers as they are computed with, apart from their bits;
rounding, packing and products keep it.
-/
import ForceDiagram.Scalar.Single
import Mathlib

namespace ForceDiagram

namespace Single

open Float.Model Float.Model.UnpackedFloat

/-! ### Rounding -/

/-- One or more, with all its digits. -/
def Large : UnpackedFloat → Prop
  | .infinity sign => sign = .positive
  | .finite sign mantissa exponent _ => sign = .positive ∧ mantissa.log2 = 23 ∧ -23 ≤ exponent
  | _ => False

theorem mantissa_shiftRight (m : ExtendedMantissa) (n : Nat) :
    (m >>> n).mantissa = m.mantissa / 2 ^ n := by
  induction n with
  | zero => exact (Nat.div_one m.mantissa).symm
  | succ n ih =>
    have hstep : (m >>> (n + 1)).mantissa = (m >>> n).mantissa / 2 := rfl
    rw [hstep, ih, Nat.div_div_eq_div_mul, Nat.pow_succ]

/-- Rounding takes the mantissa or the next one. -/
theorem roundedMantissa_eq (m : ExtendedMantissa) :
    m.roundedMantissa = m.mantissa ∨ m.roundedMantissa = m.mantissa + 1 := by
  match m with
  | ⟨_, false, false⟩ => exact .inl rfl
  | ⟨_, false, true⟩ => exact .inl rfl
  | ⟨mantissa, true, false⟩ =>
    show mantissa + mantissa % 2 = mantissa ∨ mantissa + mantissa % 2 = mantissa + 1
    omega
  | ⟨_, true, true⟩ => exact .inr rfl

/-- A mantissa of 24 digits or more is cut to 24 of them. -/
theorem shiftToTargetExponent_eq {mantissa : Nat} {exponent : Int} (hlog : 23 ≤ mantissa.log2)
    (hone : 0 ≤ mantissa.log2 + exponent) :
    ((shiftToTargetExponent .binary32 mantissa exponent .exact).1.mantissa =
        mantissa / 2 ^ (mantissa.log2 - 23)) ∧
      (shiftToTargetExponent .binary32 mantissa exponent .exact).2 =
        exponent + (mantissa.log2 - 23 : Nat) := by
  have hshift : (Format.binary32.targetExponent (totalExponent mantissa exponent) -
      exponent).toNat = mantissa.log2 - 23 := by
    have hmin : Format.binary32.minExponent = -149 := by decide
    have hdigits : (Format.binary32.mantissaBits : Int) = 24 := by decide
    rw [Format.targetExponent, totalExponent, hmin, hdigits]
    omega
  rw [shiftToTargetExponent, shiftToExponent, hshift]
  exact ⟨mantissa_shiftRight _ _, rfl⟩

theorem log2_div_pow {mantissa : Nat} (hlog : 23 ≤ mantissa.log2) :
    (mantissa / 2 ^ (mantissa.log2 - 23)).log2 = 23 := by
  have hne : mantissa ≠ 0 := by
    rintro rfl
    exact absurd hlog (by decide)
  have hlow : 2 ^ 23 ≤ mantissa / 2 ^ (mantissa.log2 - 23) := by
    rw [Nat.le_div_iff_mul_le (Nat.two_pow_pos _), ← Nat.pow_add, Nat.add_sub_cancel' hlog]
    exact Nat.log2_self_le hne
  have hhigh : mantissa / 2 ^ (mantissa.log2 - 23) < 2 ^ 24 := by
    rw [Nat.div_lt_iff_lt_mul (Nat.two_pow_pos _), ← Nat.pow_add,
      show 24 + (mantissa.log2 - 23) = mantissa.log2 + 1 by omega]
    exact Nat.lt_log2_self
  exact (Nat.log2_eq_iff (Nat.ne_of_gt (Nat.lt_of_lt_of_le (by decide) hlow))).mpr ⟨hlow, hhigh⟩

/-- What is one or more is so once it is rounded. -/
theorem large_roundWithAccuracy {mantissa : Nat} {exponent : Int} (hlog : 23 ≤ mantissa.log2)
    (hone : 0 ≤ mantissa.log2 + exponent) :
    Large (roundWithAccuracy .binary32 .positive mantissa exponent .exact) := by
  obtain ⟨hmantissa, hexponent⟩ := shiftToTargetExponent_eq hlog hone
  unfold roundWithAccuracy
  generalize shiftToTargetExponent .binary32 mantissa exponent .exact = cut at *
  have hcut : cut.1.mantissa.log2 = 23 := by rw [hmantissa, log2_div_pow hlog]
  -- the next mantissa may have one digit more, and is cut again
  have hrounded : 23 ≤ cut.1.roundedMantissa.log2 := by
    have hge := (Nat.le_log2 (by rintro h; simp [h] at hcut)).mp hcut.ge
    have hge' : 2 ^ 23 ≤ cut.1.roundedMantissa := by
      obtain h | h := roundedMantissa_eq cut.1 <;> omega
    exact (Nat.le_log2 (by omega)).mpr hge'
  have hone' : 0 ≤ cut.1.roundedMantissa.log2 + cut.2 := by omega
  obtain ⟨hmantissa', hexponent'⟩ := shiftToTargetExponent_eq hrounded hone'
  have hfinal := log2_div_pow hrounded
  rw [← hmantissa'] at hfinal
  dsimp only
  split
  · next hzero =>
    rw [hzero] at hfinal
    exact absurd hfinal (by decide)
  · exact ⟨rfl, hfinal, by omega⟩

/-! ### Packing -/

/-- The digit that bits leave out is one. -/
theorem log2_append (mantissa : BitVec 23) : (1#1 ++ mantissa).toNat.log2 = 23 := by
  have hlt := mantissa.isLt
  have heq : (1#1 ++ mantissa).toNat = 2 ^ 23 + mantissa.toNat := by
    rw [BitVec.toNat_append, ← Nat.shiftLeft_add_eq_or_of_lt hlt]
    rfl
  exact (Nat.log2_eq_iff (by omega)).mpr (by omega)

/-- Bits stand for one or more if the sign is positive, the exponent not below that
of one, and there is a number at all. -/
theorem large_unpack {bits : BitVec Format.binary32.numBits} (hsign : unpackSign bits = 0#1)
    (hlarge : 127 ≤ (unpackExponent bits).toNat)
    (hnumber : unpackExponent bits = -1#8 → unpackMantissa bits = 0#23) :
    Large (UnpackedFloat.unpack .binary32 bits) := by
  unfold UnpackedFloat.unpack
  dsimp only
  rw [hsign]
  split
  · next htop =>
    rw [if_pos (hnumber htop)]
    rfl
  · split
    · next hzero =>
      rw [hzero] at hlarge
      exact absurd hlarge (by decide)
    · refine ⟨rfl, log2_append _, ?_⟩
      have hbias : (Format.binary32.exponentBias : Int) = 127 := by decide
      rw [hbias]
      omega

/-- Nothing is lost in bits but what is too great for them, and that is infinite. -/
theorem large_unpack_pack {u : UnpackedFloat} (h : Large u) :
    Large (Float32.Model.pack u).unpack := by
  have hinfinity : Large (UnpackedFloat.unpack .binary32 (packedInfinity .binary32 .positive)) := by
    refine large_unpack rfl ?_ fun _ => ?_
    · decide
    · decide
  match u, h with
  | .infinity _, rfl => exact hinfinity
  | .finite _ mantissa exponent _, ⟨rfl, hlog, hexponent⟩ =>
    show Large (UnpackedFloat.unpack .binary32 (UnpackedFloat.pack .binary32 _))
    unfold UnpackedFloat.pack
    dsimp only
    split
    · exact hinfinity
    · next hfits =>
      rw [if_pos (by rw [hlog]; rfl)]
      have hbias : (Format.binary32.exponentBias : Int) = 127 := by decide
      rw [hbias] at hfits ⊢
      have hlt : (exponent + 127 + (23 : Nat)).toNat < 2 ^ 8 := by omega
      refine large_unpack (unpackSign_packComponents .positive _ _) ?_ ?_
      · rw [unpackExponent_packComponents, BitVec.toNat_ofNat, Nat.mod_eq_of_lt hlt]
        omega
      · rw [unpackExponent_packComponents]
        intro htop
        have htop := congrArg BitVec.toNat htop
        rw [BitVec.toNat_ofNat, Nat.mod_eq_of_lt hlt, show (-1#8).toNat = 255 by decide] at htop
        omega

theorem large_mul {u v : UnpackedFloat} (hu : Large u) (hv : Large v) :
    Large (UnpackedFloat.mul .binary32 u v) := by
  match u, v, hu, hv with
  | .infinity _, .infinity _, rfl, rfl => rfl
  | .infinity _, .finite _ _ _ _, rfl, ⟨rfl, _, _⟩ => rfl
  | .finite _ _ _ _, .infinity _, ⟨rfl, _, _⟩, rfl => rfl
  | .finite _ m e _, .finite _ m' e' _, ⟨rfl, hm, he⟩, ⟨rfl, hm', he'⟩ =>
    have hne : m ≠ 0 := by
      rintro rfl
      exact absurd hm (by decide)
    have hne' : m' ≠ 0 := by
      rintro rfl
      exact absurd hm' (by decide)
    have hlog : 46 ≤ (m * m').log2 := by
      rw [Nat.le_log2 (Nat.mul_ne_zero hne hne'), Nat.pow_add 2 23 23]
      exact Nat.mul_le_mul ((Nat.le_log2 hne).mp hm.ge) ((Nat.le_log2 hne').mp hm'.ge)
    exact large_roundWithAccuracy (by omega) (by omega)

/-! ### Counts -/

theorem log2_mul_pow {n : Nat} (hn : n ≠ 0) (k : Nat) : n.log2 + k ≤ (n * 2 ^ k).log2 := by
  rw [Nat.le_log2 (Nat.mul_ne_zero hn (Nat.two_pow_pos k).ne'), Nat.pow_add]
  exact Nat.mul_le_mul_right _ (Nat.log2_self_le hn)

theorem large_ofNat {n : Nat} (hn : 0 < n) : Large (UnpackedFloat.ofNat .binary32 n) := by
  have hround : UnpackedFloat.ofNat .binary32 n = UnpackedFloat.round .binary32 .positive n 0 := by
    have hcompare : compare (n : Int) 0 = .gt := by
      rw [Int.compare_eq_gt]
      omega
    rw [UnpackedFloat.ofNat, UnpackedFloat.ofInt, UnpackedFloat.normalize, hcompare]
    rfl
  rw [hround, UnpackedFloat.round]
  dsimp only
  rw [decreaseExponent]
  dsimp only
  have hmin : Format.binary32.minExponent = -149 := by decide
  have hdigits : (Format.binary32.mantissaBits : Int) = 24 := rfl
  rw [Format.targetExponent, totalExponent, hmin, hdigits]
  -- a short mantissa is filled up with zeros, a long one is left
  have hlog := log2_mul_pow hn.ne' (0 - max (n.log2 + 1 + 0 - 24 : Int) (-149)).toNat
  rw [← Nat.shiftLeft_eq] at hlog
  exact large_roundWithAccuracy (by omega) (by omega)

theorem large_ofScientific {n : Nat} (hn : 0 < n) :
    Large (UnpackedFloat.ofScientific .binary32 n 0) := by
  have hbits : (2 : Int) ^ Format.binary32.exponentBits = 256 := rfl
  have hlog : n.log2 + 24 ≤ (n <<< 24 * 1).log2 := by
    rw [Nat.mul_one, Nat.shiftLeft_eq]
    exact log2_mul_pow hn.ne' 24
  unfold UnpackedFloat.ofScientific
  rw [dif_neg hn.ne', hbits, if_neg (by decide), if_neg (by omega), if_pos (by decide)]
  have hsign : Sign.positive * Sign.positive = Sign.positive := rfl
  have hdigits : Format.binary32.mantissaBits = 24 := rfl
  unfold UnpackedFloat.mul
  dsimp only
  rw [hsign, hdigits, Int.toNat_zero, Nat.pow_zero]
  generalize n <<< 24 * 1 = mantissa at *
  exact large_roundWithAccuracy (by omega) (by omega)

theorem not_le_zero_of_large {x : Float32} (h : Large x.toModel.unpack) : ¬ x ≤ 0 := by
  have hzero : (0 : Float32).toModel.unpack = .zero .positive := rfl
  show ¬ (Float32.le x 0 = true)
  have hle : Float32.le x 0 = UnpackedFloat.le x.toModel.unpack (0 : Float32).toModel.unpack :=
    Bool.decide_eq_true
  rw [hle, hzero]
  generalize x.toModel.unpack = u at h
  match u, h with
  | .infinity _, rfl => exact Bool.false_ne_true
  | .finite _ _ _ _, ⟨rfl, _, _⟩ => exact Bool.false_ne_true

/-- A count of something is above zero. -/
theorem not_ofNat_le_zero {n : Nat} (hn : 0 < n) : ¬ (Scalar.ofNat n : Float32) ≤ 0 := by
  apply not_le_zero_of_large
  show Large (Float32.ofScientific n false 0).toModel.unpack
  unfold Float32.ofScientific
  split
  · -- a short count is taken as a word and multiplied by the power 1
    have hone : Large (Float32.exactlyRepresentablePowersOfTen[0]).toModel.unpack :=
      large_unpack (by decide +kernel) (by decide +kernel) (by decide +kernel)
    have hcount : 0 < n.toUInt64.toNat := by
      rw [UInt64.toNat_ofNat', Nat.mod_eq_of_lt (by omega)]
      exact hn
    exact large_unpack_pack (large_mul (large_unpack_pack (large_ofNat hcount)) hone)
  · exact large_unpack_pack (large_ofScientific hn)

end Single

end ForceDiagram
