/-
ForceDiagram/Proofs/Scalar/Quotients.lean

Quotients and counts in single precision.

A quotient is cut off after digits enough, and of the remainder only how it compares with half of
the divisor is kept, which is all that rounding needs to know (`stands_div`).  A count is taken as
a word or as digits, and multiplied by the power of ten that is one.  So both are the exact ones,
rounded once.

Main results: `div_rounds`, `ofNat_rounds`.
-/
import ForceDiagram.Proofs.Scalar.Values

namespace ForceDiagram

namespace Single

open Float.Model Float.Model.UnpackedFloat

/-! ### Quotients of digits -/

/-- A quotient of whole numbers, and how its remainder compares with half of the divisor, tell where
the exact quotient is. -/
theorem stands_div (n : ℕ) {d : ℕ} (hd : 0 < d) :
    Stands (.ofMantissaAndAccuracy (n / d) (accuracyOfFraction (n % d) d)) ((n : ℝ) / d) := by
  have hpos : (0 : ℝ) < d := by exact_mod_cast hd
  have hsplit : (n : ℝ) / d = (n / d : ℕ) + (n % d : ℕ) / (d : ℝ) := by
    have hcast : (d : ℝ) * (n / d : ℕ) + (n % d : ℕ) = n := by exact_mod_cast Nat.div_add_mod n d
    rw [← hcast]
    field_simp
  have hlt : ((n % d : ℕ) : ℝ) / d < 1 := (div_lt_one hpos).mpr (by exact_mod_cast Nat.mod_lt n hd)
  rw [hsplit, accuracyOfFraction]
  split
  · next hzero =>
    rw [hzero, Nat.cast_zero, zero_div, add_zero]
    rfl
  · next hrest =>
    have hhalf : (n % d : ℕ) / (d : ℝ) < 1 / 2 ↔ 2 * (n % d) < d := by
      rw [div_lt_div_iff₀ hpos two_pos, one_mul, mul_comm]
      exact_mod_cast Iff.rfl
    have hhalf' : 1 / 2 < (n % d : ℕ) / (d : ℝ) ↔ d < 2 * (n % d) := by
      rw [div_lt_div_iff₀ two_pos hpos, one_mul, mul_comm _ (2 : ℝ)]
      exact_mod_cast Iff.rfl
    rcases hcompare : compare (2 * (n % d)) d with - | - | -
    · have hrest : (0 : ℝ) < (n % d : ℕ) := by exact_mod_cast Nat.pos_of_ne_zero hrest
      have hbelow := hhalf.mpr (Nat.compare_eq_lt.mp hcompare)
      exact ⟨lt_add_of_pos_right _ (by positivity), add_lt_add_right hbelow _⟩
    · have hmiddle : 2 * (n % d) = d := Nat.compare_eq_eq.mp hcompare
      have hcast : (2 : ℝ) * (n % d : ℕ) = d := by exact_mod_cast hmiddle
      show _ + _ = _ + 1 / 2
      congr 1
      rw [div_eq_div_iff hpos.ne' two_ne_zero]
      linarith
    · have habove := hhalf'.mpr (Nat.compare_eq_gt.mp hcompare)
      exact ⟨add_lt_add_right habove _, add_lt_add_right hlt _⟩

theorem signed_div_signed (sign sign' : Sign) (r s : ℝ) :
    signed sign r / signed sign' s = signed (sign / sign') (r / s) := by
  cases sign <;> cases sign'
  · exact neg_div_neg_eq r s
  · exact neg_div s r
  · exact div_neg r
  · rfl

/-- A quotient of digits is the exact one, rounded. -/
theorem roundsTo_div_finite (sign sign' : Sign) {m m' : ℕ} (hm : 0 < m) (hm' : 0 < m') (e e' : ℤ) :
    RoundsTo (((sign.apply m : ℤ) * 2 ^ e / ((sign'.apply m' : ℤ) * 2 ^ e') : ℝ) : EReal)
      (UnpackedFloat.div .binary32 (.finite sign m e hm) (.finite sign' m' e' hm')) := by
  have hmin : Format.binary32.minExponent = -149 := by decide
  have hdigits : (Format.binary32.mantissaBits : ℤ) = 24 := by decide
  simp only [UnpackedFloat.div, divCore, Format.targetExponent, totalExponent, hmin, hdigits]
  generalize ht :
    min (e - e') (max ((m.log2 : ℤ) + 1 + e - ((m'.log2 : ℤ) + 1 + e') - 24) (-149)) = t
  obtain ⟨k, hk⟩ : ∃ k : ℕ, e - e' - t = k := Int.eq_ofNat_of_zero_le (by omega)
  rw [hk, Int.toNat_natCast]
  -- unless the last digit is at its least place, there are as many as rounding leaves
  have henough : t ≤ max (((m <<< k / m').log2 : ℤ) + t - 23) (-149) := by
    rcases le_or_gt t (-149) with hleast | hgreater
    · exact hleast.trans (le_max_right _ _)
    · have hshift : m'.log2 + 1 + 23 ≤ m.log2 + k := by omega
      have hquotient : 2 ^ 23 ≤ m <<< k / m' := by
        rw [Nat.le_div_iff_mul_le hm', Nat.shiftLeft_eq]
        calc 2 ^ 23 * m' ≤ 2 ^ 23 * 2 ^ (m'.log2 + 1) :=
              Nat.mul_le_mul_left _ Nat.lt_log2_self.le
          _ = 2 ^ (m'.log2 + 1 + 23) := by rw [← Nat.pow_add, Nat.add_comm]
          _ ≤ 2 ^ (m.log2 + k) := Nat.pow_le_pow_right two_pos hshift
          _ = 2 ^ m.log2 * 2 ^ k := Nat.pow_add 2 m.log2 k
          _ ≤ m * 2 ^ k := Nat.mul_le_mul_right _ (Nat.log2_self_le hm.ne')
      have hlog : 23 ≤ (m <<< k / m').log2 :=
        (Nat.le_log2 (Nat.ne_of_gt (Nat.lt_of_lt_of_le (by norm_num) hquotient))).mpr hquotient
      omega
  have hround := roundsTo_of_stands (sign / sign') (stands_div (m <<< k) hm') henough
  have hvalue : ((m <<< k : ℕ) : ℝ) / m' * 2 ^ t = m * 2 ^ e / (m' * 2 ^ e') := by
    have hplace : (m : ℝ) * 2 ^ e = (m <<< k : ℕ) * 2 ^ (t + e') := by
      rw [← shiftLeft_mul_zpow m k e]
      congr 2
      omega
    rw [hplace, zpow_add₀ two_ne_zero]
    field_simp
  rwa [hvalue, ← signed_div_signed, ← apply_mul_eq_signed, ← apply_mul_eq_signed] at hround

/-- A quotient of finite numbers is the exact one, rounded, unless the divisor is zero. -/
theorem div_rounds {x y : Float32} {r s : ℝ} (hr : value? x = some (r : EReal))
    (hs : value? y = some (s : EReal)) (hne : s ≠ 0) : Rounds (r / s : ℝ) (x / y) := by
  refine RoundsTo.pack (u := UnpackedFloat.div .binary32 x.toModel.unpack y.toModel.unpack) ?_
  obtain ⟨t', -, rfl⟩ | ⟨t', m', e', hm', hv, rfl⟩ := cases_of_valueOf hs
  · exact absurd rfl hne
  rw [hv]
  obtain ⟨t, hu, rfl⟩ | ⟨t, m, e, hm, hu, rfl⟩ := cases_of_valueOf hr
  · rw [hu, zero_div]
    exact roundsTo_zero _
  · rw [hu]
    exact roundsTo_div_finite t t' hm hm' e e'

/-! ### Counts -/

theorem roundsTo_ofScientific {n : ℕ} (hn : 0 < n) :
    RoundsTo ((n : ℝ) : EReal) (UnpackedFloat.ofScientific .binary32 n 0) := by
  have hbits : (2 : ℤ) ^ Format.binary32.exponentBits = 256 := rfl
  have hdigits : Format.binary32.mantissaBits = 24 := rfl
  have hlog := log2_shiftLeft hn 24
  have hround := roundsTo_roundWithAccuracy .positive (m := n <<< 24) (e := 0 - 24) (by omega)
  rw [Sign.apply, Int.cast_natCast] at hround
  have hvalue := shiftLeft_mul_zpow n 24 0
  rw [Nat.cast_ofNat, zpow_zero, mul_one] at hvalue
  rw [hvalue] at hround
  unfold UnpackedFloat.ofScientific
  rw [dif_neg hn.ne', hbits, if_neg (by decide), if_neg (by omega), if_pos (by decide)]
  unfold UnpackedFloat.mul
  dsimp only
  rw [hdigits, Int.toNat_zero, Nat.pow_zero, Nat.mul_one]
  exact hround

/-- A count is rounded to the nearest number. -/
theorem ofNat_rounds (n : ℕ) : Rounds (n : ℝ) (Scalar.ofNat n : Float32) := by
  show Rounds (n : ℝ) (Float32.ofScientific n false 0)
  unfold Float32.ofScientific
  split
  · next hshort =>
    -- a short count is taken as a word, exactly, and multiplied by the power 1
    have hself : Rounded (n : ℝ) n := by
      have hdigits := rounded_self (m := n) (by omega) (e := 0) (by norm_num)
      rwa [zpow_zero, mul_one] at hdigits
    have hroom : |(n : ℝ)| < 2 ^ 128 := by
      rw [Nat.abs_cast]
      exact_mod_cast hshort.1.trans (by norm_num)
    have hword : Rounds (n.toUInt64.toNat : ℝ) n.toUInt64.toFloat32 := by
      have hround := (roundsTo_normalize n.toUInt64.toNat 0 .positive).pack
      rw [zpow_zero, mul_one, Int.cast_natCast] at hround
      exact hround
    rw [UInt64.toNat_ofNat', Nat.mod_eq_of_lt (by omega)] at hword
    have hproduct := mul_rounds (hword.value?_eq hself hroom) value?_one
    rw [mul_one] at hproduct
    exact hproduct
  · exact (roundsTo_ofScientific (by omega)).pack

/-- A count is exact whose digits fit in. -/
theorem value?_ofNat {m j : ℕ} (hm : m < 2 ^ 24) (hroom : m * 2 ^ j < 2 ^ 128) :
    value? (Scalar.ofNat (m * 2 ^ j) : Float32) = some (((m * 2 ^ j : ℕ) : ℝ) : EReal) := by
  have hself := rounded_self hm (e := j) (by omega)
  rw [zpow_natCast] at hself
  refine (ofNat_rounds (m * 2 ^ j)).value?_eq ?_ ?_
  · exact_mod_cast hself
  · rw [Nat.abs_cast]
    exact_mod_cast hroom

end Single

end ForceDiagram
