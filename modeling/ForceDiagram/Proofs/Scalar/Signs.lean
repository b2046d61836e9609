/-
ForceDiagram/Proofs/Scalar/Signs.lean

Signs of numbers in single precision, and zeros.

An operation computes with the digits of its arguments and multiplies, divides or compares their
signs; rounding and putting into bits keep the sign they are given.  So what is computed from
negated arguments comes out as it was or negated (`mul_neg_left`, `div_neg_neg`,
`sub_comm_cases`), and to negate bits is to negate what is put into them (`pack_neg`).  Zeros stay
zeros in products and quotients.

Numbers that are small enough stay finite (`isFinite_roundWithAccuracy`).
-/
import ForceDiagram.Proofs.Scalar.Values

namespace ForceDiagram

namespace Single

open Float.Model Float.Model.UnpackedFloat

/-! ### Signs -/

theorem sign_neg_neg (s : Sign) : - -s = s := by cases s <;> rfl

theorem sign_neg_mul (s t : Sign) : -s * t = -(s * t) := by cases s <;> cases t <;> rfl

theorem sign_neg_div_neg (s t : Sign) : -s / -t = s / t := by cases s <;> cases t <;> rfl

theorem roundWithAccuracy_neg (s : Sign) (m : ℕ) (e : ℤ) (accuracy : Accuracy) :
    roundWithAccuracy .binary32 (-s) m e accuracy =
      (roundWithAccuracy .binary32 s m e accuracy).neg := by
  simp only [roundWithAccuracy]
  split <;> rfl

theorem mul_neg_left (u v : UnpackedFloat) :
    UnpackedFloat.mul .binary32 u.neg v = (UnpackedFloat.mul .binary32 u v).neg := by
  cases u <;> cases v <;>
    simp only [UnpackedFloat.neg, UnpackedFloat.mul, sign_neg_mul, roundWithAccuracy_neg]

theorem div_neg_neg (u v : UnpackedFloat) :
    UnpackedFloat.div .binary32 u.neg v.neg = UnpackedFloat.div .binary32 u v := by
  cases u <;> cases v <;> simp only [UnpackedFloat.neg, UnpackedFloat.div, sign_neg_div_neg]

/-- A sum of digits that do not cancel out, and the opposite one. -/
theorem normalize_neg {n : ℤ} (hn : n ≠ 0) (e : ℤ) (zeroSign : Sign) :
    UnpackedFloat.normalize .binary32 (-n) e zeroSign =
      (UnpackedFloat.normalize .binary32 n e zeroSign).neg := by
  rcases lt_or_gt_of_ne hn with hlt | hgt
  · rw [UnpackedFloat.normalize, UnpackedFloat.normalize, Int.compare_eq_gt.mpr (by omega),
      Int.compare_eq_lt.mpr hlt]
    exact roundWithAccuracy_neg .negative _ _ _
  · rw [UnpackedFloat.normalize, UnpackedFloat.normalize, Int.compare_eq_lt.mpr (by omega),
      Int.compare_eq_gt.mpr hgt, neg_neg]
    exact roundWithAccuracy_neg .positive _ _ _

/-- Taken the other way round a difference is negated, unless it is a zero. -/
theorem sub_comm_cases (u v : UnpackedFloat) :
    UnpackedFloat.sub .binary32 v u = (UnpackedFloat.sub .binary32 u v).neg ∨
      (∃ s, UnpackedFloat.sub .binary32 u v = .zero s) ∧
        ∃ s, UnpackedFloat.sub .binary32 v u = .zero s := by
  have hsign : ∀ s m e hm, UnpackedFloat.finite s m e hm = (UnpackedFloat.finite (-s) m e hm).neg :=
    fun s _ _ _ => by rw [UnpackedFloat.neg, sign_neg_neg]
  cases u with
  | notANumber => cases v <;> exact .inl rfl
  | infinity s =>
    cases v with
    | infinity t => cases s <;> cases t <;> exact .inl rfl
    | _ => exact .inl rfl
  | zero s =>
    cases v with
    | notANumber => exact .inl rfl
    | infinity t => cases t <;> exact .inl rfl
    | zero t => cases s <;> cases t <;> exact .inr ⟨⟨_, rfl⟩, _, rfl⟩
    | finite t m e hm => exact .inl (hsign t m e hm)
  | finite s m e hm =>
    cases v with
    | notANumber => exact .inl rfl
    | infinity t => cases t <;> exact .inl rfl
    | zero t => exact .inl rfl
    | finite s' m' e' hm' =>
      simp only [UnpackedFloat.sub, decreaseExponent, min_comm e' e]
      generalize s.apply (m <<< (e - min e e').toNat : ℕ) = a
      generalize s'.apply (m' <<< (e' - min e e').toNat : ℕ) = b
      rcases eq_or_ne a b with rfl | hne
      · rw [sub_self]
        exact .inr ⟨⟨_, rfl⟩, _, rfl⟩
      · rw [← neg_sub a b]
        exact .inl (normalize_neg (sub_ne_zero.mpr hne) _ _)

/-! ### Bits -/

/-- Digits with the least exponent are put into bits as they are. -/
theorem pack_least (s : Sign) {mantissa : BitVec 23} (hm : 0 < mantissa.toNat) :
    UnpackedFloat.pack .binary32 (.finite s mantissa.toNat (-149) hm) =
      packComponents .binary32 s 0#8 mantissa := by
  have hlog : mantissa.toNat.log2 < 23 := (Nat.log2_lt hm.ne').mpr mantissa.isLt
  have hdigits : Format.binary32.mantissaBits = 24 := by decide
  simp only [UnpackedFloat.pack, exponentBias_eq, hdigits]
  rw [if_neg (by decide), if_neg (by omega), BitVec.ofNat_toNat, BitVec.setWidth_eq]

/-- With a greater exponent the first digit, which is one, is left out. -/
theorem pack_greater (s : Sign) {exponent : BitVec 8} (hgreatest : exponent ≠ 255#8)
    (mantissa : BitVec 23) (hm : 0 < 2 ^ 23 + mantissa.toNat) :
    UnpackedFloat.pack .binary32
        (.finite s (2 ^ 23 + mantissa.toNat) (exponent.toNat - 150) hm) =
      packComponents .binary32 s exponent mantissa := by
  have hmantissa : mantissa.toNat < 2 ^ 23 := mantissa.isLt
  have hexponent : exponent.toNat < 2 ^ 8 := exponent.isLt
  have hhigh : exponent.toNat ≠ 255 := fun h => hgreatest (BitVec.eq_of_toNat_eq h)
  have hlog : (2 ^ 23 + mantissa.toNat).log2 = 23 :=
    (Nat.log2_eq_iff (by omega)).mpr ⟨by omega, by omega⟩
  have hdigits : Format.binary32.mantissaBits = 24 := by decide
  have hbiased : ((exponent.toNat : ℤ) - 150 + (127 : ℕ) + (23 : ℕ)).toNat = exponent.toNat := by
    omega
  have hcut : BitVec.ofNat 23 (2 ^ 23 + mantissa.toNat) = mantissa := by
    apply BitVec.eq_of_toNat_eq
    rw [BitVec.toNat_ofNat]
    omega
  simp only [UnpackedFloat.pack, exponentBias_eq, hdigits, hbiased, hlog]
  rw [if_neg (by omega), if_pos trivial, hcut, BitVec.ofNat_toNat, BitVec.setWidth_eq]

theorem pack_neg_unpack (s : Sign) {exponent : BitVec 8} (hgreatest : exponent ≠ 255#8)
    (mantissa : BitVec 23) :
    UnpackedFloat.pack .binary32
        (UnpackedFloat.unpack .binary32 (packComponents .binary32 s exponent mantissa)).neg =
      packComponents .binary32 (-s) exponent mantissa := by
  rcases unpack_cases s hgreatest mantissa with
    ⟨rfl, rfl, heq⟩ | ⟨rfl, hpos, heq⟩ | ⟨-, heq⟩ <;> rw [heq]
  · rfl
  · exact pack_least (-s) hpos
  · exact pack_greater (-s) hgreatest mantissa (by omega)

/-- Too great an exponent makes a number infinite. -/
theorem pack_beyond (s : Sign) {m : ℕ} {e : ℤ} (hm : 0 < m) (he : 104 < e) :
    UnpackedFloat.pack .binary32 (.finite s m e hm) = packedInfinity .binary32 s := by
  simp only [UnpackedFloat.pack, exponentBias_eq]
  rw [if_pos (by omega)]

/-- Any other one leaves it finite, and the sign has bits of its own. -/
theorem exists_pack_eq {m : ℕ} {e : ℤ} (hm : 0 < m) (he : e ≤ 104) :
    ∃ exponent ≠ 255#8, ∃ mantissa, ∀ s,
      UnpackedFloat.pack .binary32 (.finite s m e hm) =
        packComponents .binary32 s exponent mantissa := by
  have hfits : ¬ 2 ^ 8 ≤ (e + (127 : ℕ) + (23 : ℕ)).toNat + 1 := by omega
  simp only [UnpackedFloat.pack, exponentBias_eq, if_neg hfits]
  split
  · refine ⟨BitVec.ofNat 8 (e + (127 : ℕ) + (23 : ℕ)).toNat, fun heq => ?_, _, fun _ => rfl⟩
    have hexponent := congrArg BitVec.toNat heq
    rw [BitVec.toNat_ofNat, Nat.mod_eq_of_lt (by omega)] at hexponent
    exact hfits (by rw [hexponent]; decide)
  · exact ⟨0#8, by decide, _, fun _ => rfl⟩

/-- To negate bits is to negate what is put into them. -/
theorem pack_neg (u : UnpackedFloat) :
    UnpackedFloat.pack .binary32
        (UnpackedFloat.unpack .binary32 (UnpackedFloat.pack .binary32 u)).neg =
      UnpackedFloat.pack .binary32 u.neg := by
  match u with
  | .notANumber =>
    rw [UnpackedFloat.pack, unpack_packedNaN]
  | .infinity s =>
    rw [UnpackedFloat.pack, unpack_packedInfinity]
  | .zero s =>
    rw [UnpackedFloat.pack, unpack_packedZero]
  | .finite s m e hm =>
    rcases le_or_gt e 104 with he | he
    · obtain ⟨exponent, hgreatest, mantissa, hpack⟩ := exists_pack_eq hm he
      rw [hpack, pack_neg_unpack s hgreatest]
      exact (hpack (-s)).symm
    · rw [pack_beyond s hm he, unpack_packedInfinity]
      exact (pack_beyond (-s) hm he).symm

theorem neg_ofModel_pack (u : UnpackedFloat) :
    -(Float32.ofModel (.pack u)) = Float32.ofModel (.pack u.neg) := by
  show Float32.ofModel (.pack (Float32.Model.pack u).unpack.neg) = _
  have hbits := pack_neg u
  simp [Float32.Model.pack, Float32.Model.unpack, hbits]

/-- A number that is not too great stays finite in bits, and may become a zero. -/
theorem isFinite_unpack_pack {s : Sign} {m : ℕ} {e : ℤ} (hm : 0 < m) (he : e ≤ 104) :
    (UnpackedFloat.unpack .binary32
      (UnpackedFloat.pack .binary32 (.finite s m e hm))).isFinite = true := by
  obtain ⟨exponent, hgreatest, mantissa, hpack⟩ := exists_pack_eq hm he
  rw [hpack]
  rcases unpack_cases s hgreatest mantissa with ⟨-, -, heq⟩ | ⟨-, _, heq⟩ | ⟨-, heq⟩ <;>
    rw [heq] <;> rfl

/-- Bits keep a number a number. -/
theorem unpack_pack_ne_notANumber {u : UnpackedFloat} (h : u ≠ .notANumber) :
    UnpackedFloat.unpack .binary32 (UnpackedFloat.pack .binary32 u) ≠ .notANumber := by
  match u with
  | .notANumber => exact absurd rfl h
  | .infinity s =>
    rw [UnpackedFloat.pack, unpack_packedInfinity]
    nofun
  | .zero s =>
    rw [UnpackedFloat.pack, unpack_packedZero]
    nofun
  | .finite s m e hm =>
    rcases le_or_gt e 104 with he | he
    · intro hnone
      have hfinite := isFinite_unpack_pack (s := s) hm he
      rw [hnone] at hfinite
      cases hfinite
    · rw [pack_beyond s hm he, unpack_packedInfinity]
      nofun

/-! ### Staying finite -/

theorem mantissa_ofMantissaAndAccuracy (m : ℕ) (accuracy : Accuracy) :
    (ExtendedMantissa.ofMantissaAndAccuracy m accuracy).mantissa = m := by
  rcases accuracy with - | (_ | _ | _) <;> rfl

theorem log2_le_of_lt {n k : ℕ} (h : n < 2 ^ (k + 1)) : n.log2 ≤ k := by
  rcases n.eq_zero_or_pos with rfl | hpos
  · rw [Nat.log2_zero]
    exact Nat.zero_le k
  · exact Nat.le_of_lt_succ ((Nat.log2_lt hpos.ne').mpr h)

/-- What is rounded stays finite if it is less than a quarter of what is not. -/
theorem isFinite_roundWithAccuracy (s : Sign) {m : ℕ} {e : ℤ} (accuracy : Accuracy)
    (hlog : m.log2 + e ≤ 126) (he : e ≤ 103) :
    (UnpackedFloat.unpack .binary32 (UnpackedFloat.pack .binary32
      (roundWithAccuracy .binary32 s m e accuracy))).isFinite = true := by
  -- cut to 24 digits and rounded, a mantissa has at most 25
  have hcut : ((ExtendedMantissa.ofMantissaAndAccuracy m accuracy) >>>
      (max ((m.log2 : ℤ) + e - 23) (-149) - e).toNat).mantissa < 2 ^ 24 := by
    have hm : m < 2 ^ (m.log2 + 1) := Nat.lt_log2_self
    rw [mantissa_shiftRight, mantissa_ofMantissaAndAccuracy,
      Nat.div_lt_iff_lt_mul (Nat.two_pow_pos _), ← Nat.pow_add]
    exact hm.trans_le (Nat.pow_le_pow_right (by norm_num) (by omega))
  have hrounded : ((ExtendedMantissa.ofMantissaAndAccuracy m accuracy) >>>
      (max ((m.log2 : ℤ) + e - 23) (-149) - e).toNat).roundedMantissa.log2 ≤ 24 := by
    apply log2_le_of_lt
    rcases roundedMantissa_eq ((ExtendedMantissa.ofMantissaAndAccuracy m accuracy) >>>
      (max ((m.log2 : ℤ) + e - 23) (-149) - e).toNat) with heq | heq <;> omega
  simp only [roundWithAccuracy, shiftToTargetExponent, targetExponent_eq, shiftToExponent]
  split
  · rw [UnpackedFloat.pack, unpack_packedZero]
    rfl
  · exact isFinite_unpack_pack _ (by omega)

/-- A quarter is small enough. -/
theorem exponent_quarter {m : ℕ} {e : ℤ} (hlt : m < 2 ^ 24) (he : e ≤ 104) :
    let core := divCore .binary32 m e (2 ^ 23) (-21)
    core.1.log2 + core.2.1 ≤ 126 ∧ core.2.1 ≤ 103 := by
  have hmin : Format.binary32.minExponent = -149 := by decide
  have hdigits : (Format.binary32.mantissaBits : ℤ) = 24 := by decide
  have hlog : m.log2 ≤ 23 := log2_le_of_lt hlt
  have hfour : (2 ^ 23 : ℕ).log2 = 23 := Nat.log2_two_pow
  simp only [divCore, Format.targetExponent, totalExponent, hmin, hdigits, hfour]
  generalize hshift : (e - -21 - min (e - -21)
    (max (↑m.log2 + 1 + e - (((23 : ℕ) : ℤ) + 1 + -21) - 24) (-149))).toNat = k
  have hquotient : (m <<< k / 2 ^ 23).log2 ≤ k := by
    apply log2_le_of_lt
    rw [Nat.shiftLeft_eq, Nat.div_lt_iff_lt_mul (by norm_num), ← Nat.pow_add]
    calc m * 2 ^ k < 2 ^ 24 * 2 ^ k := Nat.mul_lt_mul_of_pos_right hlt (Nat.two_pow_pos k)
      _ = 2 ^ (k + 1 + 23) := by ring
  omega

/-- A quarter of a finite number is finite. -/
theorem isFinite_div_four {u : UnpackedFloat} (h : Stored u) (hu : u.isFinite = true) :
    (UnpackedFloat.unpack .binary32 (UnpackedFloat.pack .binary32
      (UnpackedFloat.div .binary32 u (.finite .positive (2 ^ 23) (-21) (by decide))))).isFinite =
      true := by
  match u, h, hu with
  | .zero _, _, _ => exact congrArg UnpackedFloat.isFinite unpack_packedZero
  | .finite s m e hm, h, _ =>
    obtain ⟨hlog, he⟩ := exponent_quarter h.1.1 (h.2 s m e hm rfl)
    exact isFinite_roundWithAccuracy _ _ hlog he

/-! ### Products and quotients -/

theorem roundWithAccuracy_ne_notANumber (s : Sign) (m : ℕ) (e : ℤ) (accuracy : Accuracy) :
    roundWithAccuracy .binary32 s m e accuracy ≠ .notANumber := by
  simp only [roundWithAccuracy]
  split <;> nofun

section

variable {u v : UnpackedFloat}

theorem mul_ne_notANumber (hu : u.isFinite = true) (hv : v.isFinite = true) :
    UnpackedFloat.mul .binary32 u v ≠ .notANumber := by
  match u, v, hu, hv with
  | .zero _, .zero _, _, _ => nofun
  | .zero _, .finite .., _, _ => nofun
  | .finite .., .zero _, _, _ => nofun
  | .finite .., .finite .., _, _ => exact roundWithAccuracy_ne_notANumber _ _ _ _

theorem div_ne_notANumber (hu : u.isFinite = true) (hv : v.isFinite = true)
    (hzero : ∀ s, v ≠ .zero s) : UnpackedFloat.div .binary32 u v ≠ .notANumber := by
  match u, v, hu, hv, hzero with
  | _, .zero s, _, _, hzero => exact absurd rfl (hzero s)
  | .zero _, .finite .., _, _, _ => nofun
  | .finite .., .finite .., _, _, _ => exact roundWithAccuracy_ne_notANumber _ _ _ _

theorem zero_mul_finite (s : Sign) (hv : v.isFinite = true) :
    ∃ t, UnpackedFloat.mul .binary32 (.zero s) v = .zero t := by
  match v, hv with
  | .zero _, _ => exact ⟨_, rfl⟩
  | .finite .., _ => exact ⟨_, rfl⟩

theorem finite_mul_zero (hu : u.isFinite = true) (s : Sign) :
    ∃ t, UnpackedFloat.mul .binary32 u (.zero s) = .zero t := by
  match u, hu with
  | .zero _, _ => exact ⟨_, rfl⟩
  | .finite .., _ => exact ⟨_, rfl⟩

theorem zero_div_finite (s : Sign) (hv : v.isFinite = true) (hzero : ∀ s, v ≠ .zero s) :
    ∃ t, UnpackedFloat.div .binary32 (.zero s) v = .zero t := by
  match v, hv, hzero with
  | .zero s, _, hzero => exact absurd rfl (hzero s)
  | .finite .., _, _ => exact ⟨_, rfl⟩

end

/-- The sign of a zero that is added is not to be seen but in a zero. -/
theorem rankOf_add_zero {u : UnpackedFloat} (h : Stored u) (s : Sign) :
    rankOf (UnpackedFloat.unpack .binary32 (UnpackedFloat.pack .binary32
      (UnpackedFloat.add .binary32 u (.zero s)))) = rankOf u := by
  match u, h with
  | .notANumber, h => exact congrArg rankOf (unpack_pack h)
  | .infinity _, h => exact congrArg rankOf (unpack_pack h)
  | .zero _, _ =>
    have hzero : ∀ t t' : Sign, rankOf (UnpackedFloat.unpack .binary32
        (packedZero .binary32 t)) = rankOf (.zero t') := by
      intro t t'
      rw [unpack_packedZero]
      rfl
    rw [UnpackedFloat.add]
    split <;> exact hzero _ _
  | .finite .., h => exact congrArg rankOf (unpack_pack h)

end Single

end ForceDiagram
