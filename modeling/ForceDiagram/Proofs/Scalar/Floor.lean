/-
ForceDiagram/Proofs/Scalar/Floor.lean

Rounding down in single precision.

Rounding down works on the bits.  Where a number has digits behind the point, these are the last
bits of the word, and the mask that is made from the exponent takes away just them
(`toNat_fraction`, `toNat_and_not_mask`).  Below zero the digits grow first, and may carry into
the exponent; but the number that then has the next exponent is the one whose digits, counted
with the exponent before, are one too many (`value?_ofBits_of_digits`).

Main results: `value?_floor`, `floor_le`.
-/
import ForceDiagram.Proofs.Scalar.Values

namespace ForceDiagram

namespace Single

open Float.Model Float.Model.UnpackedFloat

/-! ### Words -/

theorem toNat_packComponents (sign : Sign) (exponent : BitVec 8) (mantissa : BitVec 23) :
    (packComponents .binary32 sign exponent mantissa).toNat =
      sign.toBitVec.toNat * 2 ^ 31 + exponent.toNat * 2 ^ 23 + mantissa.toNat := by
  show (sign.toBitVec ++ exponent ++ mantissa).toNat = _
  rw [BitVec.toNat_append, ← Nat.shiftLeft_add_eq_or_of_lt mantissa.isLt, BitVec.toNat_append,
    ← Nat.shiftLeft_add_eq_or_of_lt exponent.isLt, Nat.shiftLeft_eq, Nat.shiftLeft_eq]
  ring

theorem exists_packComponents (bits : BitVec Format.binary32.numBits) :
    ∃ (sign : Sign) (exponent : BitVec 8) (mantissa : BitVec 23),
      packComponents .binary32 sign exponent mantissa = bits :=
  ⟨_, _, _, packComponents_unpackSign_unpackExponent_unpackMantissa bits⟩

theorem unpack_ofBits (w : UInt32) :
    (Float32.ofBits w).toModel.unpack = UnpackedFloat.unpack .binary32 w.toBitVec :=
  unpack_pack (stored_unpack _)

/-- A mask of the last bits takes the remainder away, -/
theorem toNat_and_mask {w mask : UInt32} {t : ℕ} (h : mask.toNat = 2 ^ t - 1) :
    (w &&& mask).toNat = w.toNat % 2 ^ t := by
  rw [UInt32.toNat_and, h, Nat.and_two_pow_sub_one_eq_mod]

/-- and its complement leaves the bits before them. -/
theorem toNat_and_not_mask {w mask : UInt32} {t : ℕ} (h : mask.toNat = 2 ^ t - 1) :
    (w &&& ~~~mask).toNat = w.toNat / 2 ^ t * 2 ^ t := by
  refine Nat.eq_of_testBit_eq fun i => ?_
  have hmask : mask.toBitVec.getLsbD i = decide (i < t) := by
    rw [← BitVec.testBit_toNat, UInt32.toNat_toBitVec, h, Nat.testBit_two_pow_sub_one]
  have hnot : (~~~mask).toNat.testBit i = (decide (i < 32) && !decide (i < t)) := by
    rw [← hmask, ← BitVec.getLsbD_not, ← BitVec.testBit_toNat]
    rfl
  rw [UInt32.toNat_and, Nat.testBit_and, hnot, ← Nat.shiftRight_eq_div_pow, ← Nat.shiftLeft_eq,
    Nat.testBit_shiftLeft, Nat.testBit_shiftRight]
  rcases Nat.lt_or_ge i t with hlt | hge
  · simp [hlt, not_le.mpr hlt]
  · rw [Nat.add_sub_cancel' hge]
    rcases Nat.lt_or_ge i 32 with hlow | hhigh
    · simp [hge, hlow]
    · have hzero : w.toNat.testBit i = false :=
        Nat.testBit_lt_two_pow (w.toNat_lt.trans_le (Nat.pow_le_pow_right two_pos hhigh))
      simp [hzero]

/-- The exponent as it stands in a word. -/
theorem toNat_biased (w : UInt32) : ((w >>> 23) &&& 0xff).toNat = w.toNat / 2 ^ 23 % 2 ^ 8 := by
  rw [UInt32.toNat_and, UInt32.toNat_shiftRight]
  show (w.toNat >>> 23) &&& (2 ^ 8 - 1) = _
  rw [Nat.and_two_pow_sub_one_eq_mod, Nat.shiftRight_eq_div_pow]

/-- The mask of the bits behind the point. -/
theorem toNat_fraction {biased : UInt32} {t : ℕ} (hbiased : 127 ≤ biased.toNat)
    (ht : 150 = biased.toNat + t) : ((0x7fffff : UInt32) >>> (biased - 127)).toNat = 2 ^ t - 1 := by
  have hplace : (biased - 127).toNat = 23 - t := by
    have hle : (127 : UInt32) ≤ biased := UInt32.le_iff_toNat_le.mpr hbiased
    rw [UInt32.toNat_sub_of_le _ _ hle]
    show biased.toNat - 127 = 23 - t
    omega
  have hpow : (2 : ℕ) ^ 23 = 2 ^ (23 - t) * 2 ^ t := by
    rw [← pow_add, Nat.sub_add_cancel (by omega)]
  rw [UInt32.toNat_shiftRight, hplace, Nat.mod_eq_of_lt (by omega), Nat.shiftRight_eq_div_pow]
  show (2 ^ 23 - 1) / 2 ^ (23 - t) = _
  rw [hpow, Nat.mul_sub_div 0 (2 ^ (23 - t)) (2 ^ t) (by positivity), Nat.zero_div]

theorem negative_iff {w : UInt32} {sign : Sign} {n : ℕ} (hn : n < 2 ^ 31)
    (hw : w.toNat = sign.toBitVec.toNat * 2 ^ 31 + n) : w >>> 31 = 1 ↔ sign = .negative := by
  rw [← UInt32.toNat_inj, UInt32.toNat_shiftRight]
  show w.toNat >>> 31 = 1 ↔ _
  rw [Nat.shiftRight_eq_div_pow, hw]
  cases sign with
  | negative =>
    have hbit : Sign.negative.toBitVec.toNat = 1 := rfl
    rw [hbit]
    exact iff_of_true (by omega) rfl
  | positive =>
    have hbit : Sign.positive.toBitVec.toNat = 0 := rfl
    rw [hbit]
    exact iff_of_false (by omega) (by simp)

/-! ### Digits -/

/-- What a word stands for that has an exponent. -/
theorem value?_ofBits {w : UInt32} (sign : Sign) {e m : ℕ} (hleast : 1 ≤ e) (hgreatest : e ≤ 254)
    (hm : m < 2 ^ 23) (hw : w.toNat = sign.toBitVec.toNat * 2 ^ 31 + e * 2 ^ 23 + m) :
    value? (.ofBits w) =
      some ((signed sign ((2 ^ 23 + m : ℕ) * 2 ^ ((e : ℤ) - 150)) : ℝ) : EReal) := by
  have he : (BitVec.ofNat 8 e).toNat = e := by
    rw [BitVec.toNat_ofNat]
    omega
  have hdigits : (BitVec.ofNat 23 m).toNat = m := by
    rw [BitVec.toNat_ofNat]
    omega
  have hbits : w.toBitVec =
      packComponents .binary32 sign (BitVec.ofNat 8 e) (BitVec.ofNat 23 m) := by
    refine BitVec.eq_of_toNat_eq ?_
    rw [toNat_packComponents, he, hdigits]
    exact hw
  have hne : ∀ k : BitVec 8, k.toNat ≠ e → BitVec.ofNat 8 e ≠ k := by
    rintro k hk rfl
    exact hk he
  rw [value?, unpack_ofBits, hbits, unpack_greater sign (hne 0#8 (by simp; omega))
    (hne 255#8 (by simp; omega)), valueOf, apply_mul_eq_signed, he, hdigits]

/-- Digits may be as many as there are with the next exponent: then it is the first number that
has this one. -/
theorem value?_ofBits_of_digits {w : UInt32} (sign : Sign) {e m : ℕ} (hleast : 1 ≤ e)
    (hgreatest : e < 254) (hlow : 2 ^ 23 ≤ m) (hhigh : m ≤ 2 ^ 24)
    (hw : w.toNat + 2 ^ 23 = sign.toBitVec.toNat * 2 ^ 31 + e * 2 ^ 23 + m) :
    value? (.ofBits w) = some ((signed sign (m * 2 ^ ((e : ℤ) - 150)) : ℝ) : EReal) := by
  obtain ⟨rest, rfl⟩ := Nat.exists_eq_add_of_le hlow
  -- with the next exponent all digits but the first are zero
  rcases hhigh.lt_or_eq with hlt | heq
  · have hw' : w.toNat = sign.toBitVec.toNat * 2 ^ 31 + e * 2 ^ 23 + rest := by omega
    exact value?_ofBits sign hleast hgreatest.le (by omega) hw'
  · obtain rfl : rest = 2 ^ 23 := by omega
    have hw' : w.toNat = sign.toBitVec.toNat * 2 ^ 31 + (e + 1) * 2 ^ 23 + 0 := by omega
    have hvalue : ((2 ^ 23 + 0 : ℕ) : ℝ) * 2 ^ (((e + 1 : ℕ) : ℤ) - 150) =
        (2 ^ 23 + 2 ^ 23 : ℕ) * 2 ^ ((e : ℤ) - 150) := by
      rw [show (((e + 1 : ℕ) : ℤ) - 150) = (e - 150) + 1 by push_cast; ring,
        zpow_add_one₀ two_ne_zero]
      push_cast
      ring
    rw [value?_ofBits sign (by omega) (by omega) (by norm_num) hw', hvalue]

/-- The last digits of a word are those of the number. -/
theorem mod_two_pow_eq {n s e m t : ℕ} (ht : t ≤ 23)
    (hn : n + 2 ^ 23 = s * 2 ^ 31 + e * 2 ^ 23 + m) : n % 2 ^ t = m % 2 ^ t := by
  have hpow : (2 : ℕ) ^ 23 = 2 ^ t * 2 ^ (23 - t) := by rw [← pow_add, Nat.add_sub_cancel' ht]
  have hn' : n + 2 ^ t * 2 ^ (23 - t) = 2 ^ t * (2 ^ (23 - t) * (s * 256 + e)) + m := by
    rw [← mul_assoc, ← hpow, hn]
    ring
  rw [← Nat.add_mul_mod_self_left n (2 ^ t), hn', Nat.mul_add_mod]

/-- A word of which the fraction bits are cut off. -/
theorem value?_ofBits_whole {w : UInt32} (sign : Sign) {n e m t : ℕ} (ht : 1 ≤ t ∧ t ≤ 23)
    (he : e + t = 150) (hn : n + 2 ^ 23 = sign.toBitVec.toNat * 2 ^ 31 + e * 2 ^ 23 + m)
    (hlow : 2 ^ 23 ≤ m) (hhigh : m < 2 ^ 24 + 2 ^ t) (hw : w.toNat = n / 2 ^ t * 2 ^ t) :
    value? (.ofBits w) = some ((signed sign (m / 2 ^ t : ℕ) : ℝ) : EReal) := by
  have hpow : ∀ k, t ≤ k → (2 : ℕ) ^ k = 2 ^ (k - t) * 2 ^ t := fun k hk => by
    rw [← pow_add, Nat.sub_add_cancel hk]
  have hpos : 0 < 2 ^ t := by positivity
  have hvalue : (((m / 2 ^ t * 2 ^ t : ℕ) : ℝ) * 2 ^ ((e : ℤ) - 150)) = (m / 2 ^ t : ℕ) := by
    rw [show (e : ℤ) - 150 = -t by omega, zpow_neg, zpow_natCast, Nat.cast_mul, Nat.cast_pow,
      Nat.cast_ofNat, mul_inv_cancel_right₀ (by positivity)]
  rw [← hvalue]
  refine value?_ofBits_of_digits sign (by omega) (by omega) ?_ ?_ ?_
  · rw [hpow 23 (by omega)] at hlow ⊢
    exact Nat.mul_le_mul_right _ ((Nat.le_div_iff_mul_le hpos).mpr hlow)
  · rw [hpow 24 (by omega)] at hhigh ⊢
    refine Nat.mul_le_mul_right _ (Nat.le_of_lt_succ (Nat.div_lt_of_lt_mul ?_))
    linarith
  · have hmod := mod_two_pow_eq ht.2 hn
    have hndiv := Nat.div_add_mod' n (2 ^ t)
    have hmdiv := Nat.div_add_mod' m (2 ^ t)
    omega

/-! ### Finite numbers -/

/-- A finite number by its bits: a sign, and digits without an exponent or with one. -/
theorem bits_of_finite {x : Float32} {r : ℝ} (hr : value? x = some (r : EReal)) :
    ∃ sign : Sign,
      (∃ m < 2 ^ 23, x.toBits.toNat = sign.toBitVec.toNat * 2 ^ 31 + m ∧
        r = signed sign (m * 2 ^ (-149 : ℤ))) ∨
      ∃ e m, 1 ≤ e ∧ e ≤ 254 ∧ 2 ^ 23 ≤ m ∧ m < 2 ^ 24 ∧
        x.toBits.toNat + 2 ^ 23 = sign.toBitVec.toNat * 2 ^ 31 + e * 2 ^ 23 + m ∧
        r = signed sign (m * 2 ^ ((e : ℤ) - 150)) := by
  obtain ⟨sign, exponent, mantissa, hbits⟩ := exists_packComponents x.toBits.toBitVec
  have hvalue : valueOf (UnpackedFloat.unpack .binary32
      (packComponents .binary32 sign exponent mantissa)) = some (r : EReal) := by
    rw [hbits]
    exact hr
  have hgreatest : exponent ≠ 255#8 := by
    rintro rfl
    rw [unpack_greatest] at hvalue
    split at hvalue
    · cases sign
      · exact absurd (Option.some.inj hvalue).symm (EReal.coe_ne_bot r)
      · exact absurd (Option.some.inj hvalue).symm (EReal.coe_ne_top r)
    · exact absurd hvalue nofun
  have hsmall : exponent.toNat ≠ 255 := fun h => hgreatest (BitVec.eq_of_toNat_eq h)
  have hnat : x.toBits.toNat =
      sign.toBitVec.toNat * 2 ^ 31 + exponent.toNat * 2 ^ 23 + mantissa.toNat := by
    rw [← toNat_packComponents, hbits]
    rfl
  have hmantissa : mantissa.toNat < 2 ^ 23 := mantissa.isLt
  refine ⟨sign, ?_⟩
  rcases unpack_cases sign hgreatest mantissa with
    ⟨rfl, rfl, heq⟩ | ⟨rfl, hm, heq⟩ | ⟨hleast, heq⟩ <;> rw [heq] at hvalue
  · refine .inl ⟨0, by norm_num, by simpa using hnat, ?_⟩
    have hzero := EReal.coe_eq_zero.mp (Option.some.inj hvalue).symm
    cases sign <;> simp [signed, hzero]
  · rw [valueOf, apply_mul_eq_signed] at hvalue
    exact .inl ⟨mantissa.toNat, hmantissa, by simpa using hnat,
      (EReal.coe_eq_coe_iff.mp (Option.some.inj hvalue)).symm⟩
  · rw [valueOf, apply_mul_eq_signed] at hvalue
    have hpos : exponent.toNat ≠ 0 := fun h => hleast (BitVec.eq_of_toNat_eq h)
    exact .inr ⟨exponent.toNat, 2 ^ 23 + mantissa.toNat, by omega, by omega, by omega, by omega,
      by omega, (EReal.coe_eq_coe_iff.mp (Option.some.inj hvalue)).symm⟩

theorem beq_zero_iff {x : Float32} {r : ℝ} (hr : value? x = some (r : EReal)) :
    (x == 0) = true ↔ r = 0 := by
  rw [beq_iff_le, le_iff_of_value? hr value?_zero, le_iff_of_value? value?_zero hr,
    EReal.coe_nonpos, EReal.coe_nonneg, le_antisymm_iff]

/-! ### Rounding down -/

/-- A whole number stays as it is, with either sign. -/
theorem floor_signed (sign : Sign) (n : ℕ) : ((⌊signed sign n⌋ : ℤ) : ℝ) = signed sign n := by
  cases sign with
  | positive => rw [signed, Int.floor_natCast, Int.cast_natCast]
  | negative => rw [signed, Int.floor_neg, Int.ceil_natCast, Int.cast_neg, Int.cast_natCast]

/-- The greatest whole number not above a quotient, with either sign. -/
theorem floor_signed_div (sign : Sign) (m : ℕ) {d : ℕ} (hd : 0 < d) :
    ((⌊signed sign (m / d)⌋ : ℤ) : ℝ) =
      signed sign ((match sign with
        | .positive => m / d
        | .negative => (m + (d - 1)) / d : ℕ) : ℝ) := by
  cases sign with
  | positive =>
    simp only [signed]
    rw [Int.floor_div_natCast, Int.floor_natCast]
    norm_cast
  | negative =>
    simp only [signed]
    have hquotient : -(m : ℤ) / d = -((m + (d - 1)) / d : ℕ) := by
      have hmod := Nat.mod_lt (m + (d - 1)) hd
      have hdiv : (d : ℤ) * ((m + (d - 1)) / d : ℕ) + ((m + (d - 1)) % d : ℕ) = m + (d - 1) := by
        have hnat := congrArg (Nat.cast (R := ℤ)) (Nat.div_add_mod (m + (d - 1)) d)
        push_cast [Nat.cast_sub hd] at hnat ⊢
        exact hnat
      refine ((Int.ediv_emod_unique (r := d - 1 - ((m + (d - 1)) % d : ℕ)) (by omega)).mpr
        ⟨?_, by omega, by omega⟩).1
      linarith
    rw [← neg_div, Int.floor_div_natCast, ← Int.cast_natCast m, ← Int.cast_neg, Int.floor_intCast,
      hquotient]
    push_cast
    rfl

/-- Below one in size only the sign decides. -/
theorem value?_floor_of_lt_one {x : Float32} {r : ℝ} (hr : value? x = some (r : EReal))
    (hbiased : x.toBits.toNat / 2 ^ 23 % 2 ^ 8 < 127) {sign : Sign}
    (hsign : x.toBits >>> 31 = 1 ↔ sign = .negative) {a : ℝ} (ha : 0 ≤ a) (hlt : a < 1)
    (hsize : r = signed sign a) : value? (floor x) = some ((⌊r⌋ : ℝ) : EReal) := by
  have hfirst : ¬ (150 : UInt32) ≤ (x.toBits >>> 23) &&& 0xff := by
    rw [UInt32.le_iff_toNat_le, toNat_biased, not_le]
    exact hbiased.trans (by decide)
  have hsecond : (x.toBits >>> 23) &&& 0xff < (127 : UInt32) := by
    rw [UInt32.lt_iff_toNat_lt, toNat_biased]
    exact hbiased
  rw [floor]
  simp only [if_neg hfirst, if_pos hsecond]
  split
  · next hzero =>
    obtain rfl := (beq_zero_iff hr).mp hzero
    rw [hr, Int.floor_zero, Int.cast_zero]
  · next hzero =>
    have hne : r ≠ 0 := fun h => hzero ((beq_zero_iff hr).mpr h)
    cases sign with
    | negative =>
      have hfloor : ⌊r⌋ = -1 := by
        rw [hsize, signed] at hne ⊢
        rw [Int.floor_eq_iff]
        push_cast
        have hpos : 0 < a := lt_of_le_of_ne ha fun h => hne (by rw [← h, neg_zero])
        exact ⟨by linarith, by linarith⟩
      rw [if_pos (hsign.mpr rfl), hfloor, value?_neg, value?_one]
      push_cast
      rfl
    | positive =>
      have hfloor : ⌊r⌋ = 0 := by
        rw [hsize, signed, Int.floor_eq_zero_iff]
        exact ⟨ha, hlt⟩
      rw [if_neg (hsign.not.mpr (by simp)), hfloor, value?_zero, Int.cast_zero, EReal.coe_zero]

/-- What rounding down does where there are digits on both sides of the point. -/
theorem exists_floor_eq {x : Float32} {e t : ℕ} (hbiased : x.toBits.toNat / 2 ^ 23 % 2 ^ 8 = e)
    (he : 127 ≤ e) (ht : 1 ≤ t) (hsum : 150 = e + t) :
    ∃ mask : UInt32, mask.toNat = 2 ^ t - 1 ∧
      floor x = if x.toBits &&& mask = 0 then x
        else if x.toBits >>> 31 = 1 then .ofBits ((x.toBits + mask) &&& ~~~mask)
        else .ofBits (x.toBits &&& ~~~mask) := by
  rw [← toNat_biased] at hbiased
  have hfirst : ¬ (150 : UInt32) ≤ (x.toBits >>> 23) &&& 0xff := by
    rw [UInt32.le_iff_toNat_le, hbiased, not_le]
    show e < 150
    omega
  have hsecond : ¬ (x.toBits >>> 23) &&& 0xff < (127 : UInt32) := by
    rw [UInt32.lt_iff_toNat_lt, hbiased, not_lt]
    exact he
  refine ⟨_, toNat_fraction (he.trans_eq hbiased.symm) (hbiased.symm ▸ hsum), ?_⟩
  rw [floor]
  simp only [if_neg hfirst, if_neg hsecond]

/-- There the digits behind the point are cut off, below zero after all of them have been added. -/
theorem value?_floor_of_fraction {x : Float32} {r : ℝ} (hr : value? x = some (r : EReal))
    {sign : Sign} {e m : ℕ} (he : 127 ≤ e ∧ e < 150) (hm : 2 ^ 23 ≤ m ∧ m < 2 ^ 24)
    (hbits : x.toBits.toNat + 2 ^ 23 = sign.toBitVec.toNat * 2 ^ 31 + e * 2 ^ 23 + m)
    (hsize : r = signed sign (m * 2 ^ ((e : ℤ) - 150))) :
    value? (floor x) = some ((⌊r⌋ : ℝ) : EReal) := by
  obtain ⟨t, ht⟩ := Nat.exists_eq_add_of_le he.2.le
  obtain ⟨mask, hmask, hfloor⟩ :=
    exists_floor_eq (x := x) (e := e) (by omega) he.1 (by omega) ht
  have hpos : 0 < 2 ^ t := Nat.two_pow_pos t
  have hpow : (2 : ℕ) ^ t ≤ 2 ^ 23 := Nat.pow_le_pow_right two_pos (by omega)
  have hquotient : (m : ℝ) * 2 ^ ((e : ℤ) - 150) = m / (2 ^ t : ℕ) := by
    rw [show (e : ℤ) - 150 = -t by omega, zpow_neg, zpow_natCast, div_eq_mul_inv, Nat.cast_pow,
      Nat.cast_ofNat]
  rw [hquotient] at hsize
  rw [hfloor]
  split
  · next hnone =>
    have hmod : m % 2 ^ t = 0 := by
      rw [← mod_two_pow_eq (by omega) hbits, ← toNat_and_mask hmask, hnone]
      rfl
    obtain ⟨q, hq⟩ := Nat.dvd_of_mod_eq_zero hmod
    rw [hq, Nat.cast_mul, mul_div_cancel_left₀ _ (by positivity)] at hsize
    rw [hr, hsize, floor_signed]
  · have hsign : x.toBits >>> 31 = 1 ↔ sign = .negative :=
      negative_iff (n := e * 2 ^ 23 + m - 2 ^ 23) (by omega) (by omega)
    rw [hsize, floor_signed_div sign m (d := 2 ^ t) hpos]
    cases sign with
    | negative =>
      -- a carry gets no further than the exponent, which is not the greatest one
      have hsum : (x.toBits + mask).toNat = x.toBits.toNat + (2 ^ t - 1) := by
        have hbit : Sign.negative.toBitVec.toNat = 1 := rfl
        rw [UInt32.toNat_add, hmask, Nat.mod_eq_of_lt]
        rw [hbit] at hbits
        omega
      rw [if_pos (hsign.mpr rfl)]
      refine value?_ofBits_whole .negative (n := x.toBits.toNat + (2 ^ t - 1)) (e := e)
        (by omega) ht.symm ?_ (by omega) (by omega) ?_
      · rw [add_right_comm, hbits, add_assoc]
      · rw [toNat_and_not_mask hmask, hsum]
    | positive =>
      rw [if_neg (hsign.not.mpr (by simp))]
      exact value?_ofBits_whole .positive (by omega) ht.symm hbits (by omega) (by omega)
        (toNat_and_not_mask hmask)

/-- From the place of the first digit before the point on, every number is whole. -/
theorem value?_floor_of_whole {x : Float32} {r : ℝ} (hr : value? x = some (r : EReal))
    {sign : Sign} {e m : ℕ} (he : 150 ≤ e) (hbiased : x.toBits.toNat / 2 ^ 23 % 2 ^ 8 = e)
    (hsize : r = signed sign (m * 2 ^ ((e : ℤ) - 150))) :
    value? (floor x) = some ((⌊r⌋ : ℝ) : EReal) := by
  have hwhole : (m : ℝ) * 2 ^ ((e : ℤ) - 150) = (m * 2 ^ (e - 150) : ℕ) := by
    rw [show (e : ℤ) - 150 = (e - 150 : ℕ) by omega, zpow_natCast]
    push_cast
    rfl
  have hfirst : (150 : UInt32) ≤ (x.toBits >>> 23) &&& 0xff := by
    rw [UInt32.le_iff_toNat_le, toNat_biased, hbiased]
    exact he
  rw [floor, if_pos hfirst, hr, hsize, hwhole, floor_signed]

/-- **Rounding down is exact.**  It takes a finite number to the greatest whole number not above
its value. -/
theorem value?_floor {x : Float32} {r : ℝ} (hr : value? x = some (r : EReal)) :
    value? (floor x) = some ((⌊r⌋ : ℝ) : EReal) := by
  obtain ⟨sign, ⟨m, hm, hbits, hsize⟩ | ⟨e, m, hleast, hgreatest, hlow, hhigh, hbits, hsize⟩⟩ :=
    bits_of_finite hr
  · refine value?_floor_of_lt_one hr (by omega) (negative_iff (n := m) (by omega) hbits)
      (by positivity) ?_ hsize
    have hcast : (m : ℝ) < 2 ^ 23 := by exact_mod_cast hm
    calc (m : ℝ) * 2 ^ (-149 : ℤ) < 2 ^ 23 * 2 ^ (-149 : ℤ) := by gcongr
      _ ≤ 1 := by norm_num
  have hbiased : x.toBits.toNat / 2 ^ 23 % 2 ^ 8 = e := by omega
  rcases Nat.lt_or_ge e 127 with hlt | hge
  · refine value?_floor_of_lt_one hr (hbiased.trans_lt hlt)
      (negative_iff (n := e * 2 ^ 23 + m - 2 ^ 23) (by omega) (by omega)) (by positivity) ?_ hsize
    have hcast : (m : ℝ) < 2 ^ (24 : ℤ) := by exact_mod_cast hhigh
    calc (m : ℝ) * 2 ^ ((e : ℤ) - 150) < 2 ^ (24 : ℤ) * 2 ^ ((e : ℤ) - 150) := by gcongr
      _ = 2 ^ ((e : ℤ) - 126) := by
        rw [← zpow_add₀ two_ne_zero]
        congr 1
        ring
      _ ≤ 1 := zpow_le_one_of_nonpos₀ one_le_two (by omega)
  rcases Nat.lt_or_ge e 150 with hlt | hge'
  · exact value?_floor_of_fraction hr ⟨hge, hlt⟩ ⟨hlow, hhigh⟩ hbits hsize
  · exact value?_floor_of_whole hr hge' hbiased hsize

theorem isFinite_floor {x : Float32} (h : Scalar.isFinite x = true) :
    Scalar.isFinite (floor x) = true := by
  obtain ⟨r, hr⟩ := isFinite_iff_value?.mp h
  exact isFinite_iff_value?.mpr ⟨_, value?_floor hr⟩

theorem floor_le {x : Float32} (h : Scalar.isFinite x = true) : floor x ≤ x := by
  obtain ⟨r, hr⟩ := isFinite_iff_value?.mp h
  exact (le_iff_of_value? (value?_floor hr) hr).mpr (EReal.coe_le_coe (Int.floor_le r))

end Single

end ForceDiagram
