/-
ForceDiagram/Proofs/Scalar/Values.lean

Numbers in single precision by their values.

Bits keep a canonical number, up to the exponents for which there is no room and which
become infinite (`unpack_pack_finite`).  So numbers compare as their values do, and sums,
differences and squares are the exact ones, rounded and clipped (`Rounds`).  That rounding
keeps the order then says that each of these operations does (`Rounds.le`).

Main results: `le_iff_value?`, `add_rounds`, `sub_rounds`, `mul_rounds` and `mul_self_rounds`.
-/
import ForceDiagram.Proofs.Scalar.Order
import ForceDiagram.Proofs.Scalar.Rounding

namespace ForceDiagram

namespace Single

open Float.Model Float.Model.UnpackedFloat

/-! ### Bits -/

/-- A number that bits stand for: the greatest exponents are left to infinity. -/
def Stored (u : UnpackedFloat) : Prop :=
  Canonical u ∧ ∀ sign m e hm, u = .finite sign m e hm → e ≤ 104

theorem toNat_one_append (mantissa : BitVec 23) :
    (1#1 ++ mantissa).toNat = 2 ^ 23 + mantissa.toNat := by
  rw [BitVec.toNat_append, ← Nat.shiftLeft_add_eq_or_of_lt mantissa.isLt]
  rfl

theorem unpack_packedInfinity (sign : Sign) :
    UnpackedFloat.unpack .binary32 (packedInfinity .binary32 sign) = .infinity sign := by
  simp [UnpackedFloat.unpack, packedInfinity]

theorem exponentBias_eq : Format.binary32.exponentBias = 127 := by decide

/-- With the least exponent the digits are all there. -/
theorem unpack_least (sign : Sign) {mantissa : BitVec 23} (hm : 0 < mantissa.toNat) :
    UnpackedFloat.unpack .binary32 (packComponents .binary32 sign 0#8 mantissa) =
      .finite sign mantissa.toNat (-149) hm := by
  have hne : mantissa ≠ 0#23 := by
    rintro rfl
    exact absurd hm (by decide)
  simp [UnpackedFloat.unpack, hne, exponentBias_eq]

/-- With any other exponent there is a digit more, which is one. -/
theorem unpack_greater (sign : Sign) {exponent : BitVec 8} (hleast : exponent ≠ 0#8)
    (hgreatest : exponent ≠ 255#8) (mantissa : BitVec 23) :
    UnpackedFloat.unpack .binary32 (packComponents .binary32 sign exponent mantissa) =
      .finite sign (2 ^ 23 + mantissa.toNat) (exponent.toNat - 150) (by omega) := by
  simp [UnpackedFloat.unpack, hleast, hgreatest, exponentBias_eq, toNat_one_append]

/-- The greatest exponent is that of what is not finite. -/
theorem unpack_greatest (sign : Sign) (mantissa : BitVec 23) :
    UnpackedFloat.unpack .binary32 (packComponents .binary32 sign 255#8 mantissa) =
      if mantissa = 0#23 then .infinity sign else .notANumber := by
  simp [UnpackedFloat.unpack]

/-- What bits stand for whose exponent is not the greatest. -/
theorem unpack_cases (sign : Sign) {exponent : BitVec 8} (hgreatest : exponent ≠ 255#8)
    (mantissa : BitVec 23) :
    let u := UnpackedFloat.unpack .binary32 (packComponents .binary32 sign exponent mantissa)
    (exponent = 0#8 ∧ mantissa = 0#23 ∧ u = .zero sign) ∨
      (exponent = 0#8 ∧ ∃ hm, u = .finite sign mantissa.toNat (-149) hm) ∨
      (exponent ≠ 0#8 ∧
        u = .finite sign (2 ^ 23 + mantissa.toNat) (exponent.toNat - 150) (by omega)) := by
  intro u
  by_cases hleast : exponent = 0#8
  · subst hleast
    rcases mantissa.toNat.eq_zero_or_pos with hzero | hpos
    · obtain rfl : mantissa = 0#23 := BitVec.eq_of_toNat_eq hzero
      exact .inl ⟨rfl, rfl, unpack_packedZero⟩
    · exact .inr (.inl ⟨rfl, hpos, unpack_least sign hpos⟩)
  · exact .inr (.inr ⟨hleast, unpack_greater sign hleast hgreatest mantissa⟩)

theorem stored_unpack (bits : BitVec Format.binary32.numBits) :
    Stored (UnpackedFloat.unpack .binary32 bits) := by
  rw [← packComponents_unpackSign_unpackExponent_unpackMantissa bits]
  generalize Sign.ofBitVec (unpackSign bits) = sign
  generalize (unpackExponent bits : BitVec 8) = exponent
  generalize (unpackMantissa bits : BitVec 23) = mantissa
  have hmantissa : mantissa.toNat < 2 ^ 23 := mantissa.isLt
  by_cases hgreatest : exponent = 255#8
  · subst hgreatest
    rw [unpack_greatest]
    split <;> exact ⟨trivial, nofun⟩
  rcases unpack_cases sign hgreatest mantissa with
    ⟨-, -, heq⟩ | ⟨-, hpos, heq⟩ | ⟨hleast, heq⟩ <;> rw [heq]
  · exact ⟨trivial, nofun⟩
  · refine ⟨⟨by omega, le_rfl, .inl rfl⟩, fun _ _ e _ heq => ?_⟩
    injection heq
    omega
  · have hlow : exponent.toNat ≠ 0 := fun h => hleast (BitVec.eq_of_toNat_eq h)
    have hhigh : exponent.toNat ≠ 255 := fun h => hgreatest (BitVec.eq_of_toNat_eq h)
    have hbits : exponent.toNat < 2 ^ 8 := exponent.isLt
    refine ⟨⟨by omega, by omega, .inr (by omega)⟩, fun _ _ e _ heq => ?_⟩
    injection heq
    omega

/-- Bits keep a canonical number, unless its exponent is too great for them. -/
theorem unpack_pack_finite {sign : Sign} {m : ℕ} {e : ℤ} {hm : 0 < m}
    (h : Canonical (.finite sign m e hm)) :
    UnpackedFloat.unpack .binary32 (UnpackedFloat.pack .binary32 (.finite sign m e hm)) =
      if e ≤ 104 then .finite sign m e hm else .infinity sign := by
  obtain ⟨hlt, hleast, hfull⟩ := h
  rw [UnpackedFloat.pack]
  dsimp only
  rw [exponentBias_eq]
  have hdigits : Format.binary32.mantissaBits = 24 := by decide
  rw [hdigits]
  split
  · rw [if_neg (by omega), unpack_packedInfinity]
  · next hfits =>
    have he : e ≤ 104 := by omega
    rw [if_pos he]
    split
    · next hlog =>
      -- all digits are there, of which the first is one and not put into bits
      have hfull : 2 ^ 23 ≤ m := (Nat.le_log2 hm.ne').mp (by omega)
      have hexponent : (BitVec.ofNat 8 (e + (127 : ℕ) + (23 : ℕ)).toNat).toNat =
          (e + 150).toNat := by
        rw [BitVec.toNat_ofNat, Nat.mod_eq_of_lt (by omega)]
        omega
      have hmantissa : (BitVec.ofNat 23 m).toNat = m - 2 ^ 23 := by
        rw [BitVec.toNat_ofNat]
        omega
      have hne : ∀ k : BitVec 8, k.toNat ≠ (e + 150).toNat →
          BitVec.ofNat 8 (e + (127 : ℕ) + (23 : ℕ)).toNat ≠ k := by
        rintro k hk rfl
        exact hk hexponent
      rw [unpack_greater sign (hne 0#8 (by simp; omega)) (hne 255#8 (by simp; omega)),
        UnpackedFloat.finite.injEq, hexponent, hmantissa]
      exact ⟨rfl, by omega, by omega⟩
    · next hlog =>
      -- with fewer digits the last one is at its least place, which the exponent zero says
      have hshort : m < 2 ^ 23 := by
        by_contra hlong
        have hlow : 23 ≤ m.log2 := (Nat.le_log2 hm.ne').mpr (not_lt.mp hlong)
        have hhigh : m.log2 < 24 := (Nat.log2_lt hm.ne').mpr hlt
        omega
      have hmantissa : (BitVec.ofNat 23 m).toNat = m := by
        rw [BitVec.toNat_ofNat, Nat.mod_eq_of_lt hshort]
      rw [unpack_least sign (hm.trans_eq hmantissa.symm), UnpackedFloat.finite.injEq]
      exact ⟨rfl, hmantissa, by omega⟩

theorem unpack_pack {u : UnpackedFloat} (h : Stored u) :
    UnpackedFloat.unpack .binary32 (UnpackedFloat.pack .binary32 u) = u := by
  match u, h with
  | .notANumber, _ => exact unpack_packedNaN
  | .infinity sign, _ => exact unpack_packedInfinity sign
  | .zero _, _ => exact unpack_packedZero
  | .finite sign m e hm, h => rw [unpack_pack_finite h.1, if_pos (h.2 sign m e hm rfl)]

theorem Stored.neg {u : UnpackedFloat} (h : Stored u) : Stored u.neg := by
  refine ⟨canonical_neg h.1, fun sign m e hm heq => ?_⟩
  match u, heq with
  | .finite sign' m' e' hm', heq =>
    injection heq with _ _ he
    exact he ▸ h.2 sign' m' e' hm' rfl

/-- A number is put into bits with its value clipped. -/
theorem valueOf_unpack_pack {u : UnpackedFloat} (h : Canonical u) {v : EReal}
    (hv : valueOf u = some v) :
    valueOf (UnpackedFloat.unpack .binary32 (UnpackedFloat.pack .binary32 u)) = some (clip v) := by
  match u, h, hv with
  | .infinity .positive, h, rfl => rw [unpack_pack ⟨h, nofun⟩, clip_top]; rfl
  | .infinity .negative, h, rfl => rw [unpack_pack ⟨h, nofun⟩, clip_bot]; rfl
  | .zero _, h, rfl => rw [unpack_pack ⟨h, nofun⟩, clip_zero]; rfl
  | .finite sign m e hm, h, rfl =>
    have hdigit := lastDigit_of_canonical h
    rw [unpack_pack_finite h]
    split
    · next he =>
      have hroom : (2 : ℝ) ^ (e + 24) ≤ 2 ^ (128 : ℤ) :=
        zpow_le_zpow_right₀ one_le_two (by omega)
      rw [clip_of_abs_lt (hdigit.lt.trans_le (by exact_mod_cast hroom))]
      rfl
    · next he =>
      have hbeyond : (2 : ℝ) ^ (128 : ℤ) ≤ 2 ^ (e + 23) :=
        zpow_le_zpow_right₀ one_le_two (by omega)
      have hsize := hbeyond.trans (hdigit.le.resolve_left (by omega))
      rw [abs_mul, abs_apply, abs_of_pos (show (0 : ℝ) < 2 ^ e by positivity)] at hsize
      have hclip : clip ((m * 2 ^ e : ℝ) : EReal) = ⊤ := clip_of_le (by exact_mod_cast hsize)
      cases sign with
      | positive =>
        show some (⊤ : EReal) = some (clip (((m : ℤ) : ℝ) * 2 ^ e : ℝ))
        rw [Int.cast_natCast, hclip]
      | negative =>
        show some (⊥ : EReal) = some (clip (((-(m : ℤ) : ℤ) : ℝ) * 2 ^ e : ℝ))
        rw [Int.cast_neg, Int.cast_natCast, neg_mul, EReal.coe_neg, clip_neg, hclip, EReal.neg_top]

/-- A number with a real value is a zero, or has digits. -/
theorem cases_of_valueOf {u : UnpackedFloat} {r : ℝ} (h : valueOf u = some (r : EReal)) :
    (∃ s, u = .zero s ∧ r = 0) ∨
      ∃ s m e hm, u = .finite s m e hm ∧ r = (s.apply m : ℤ) * 2 ^ e := by
  match u, h with
  | .infinity .positive, h => exact absurd (Option.some.inj h).symm (EReal.coe_ne_top r)
  | .infinity .negative, h => exact absurd (Option.some.inj h).symm (EReal.coe_ne_bot r)
  | .zero s, h => exact .inl ⟨s, rfl, EReal.coe_eq_zero.mp (Option.some.inj h).symm⟩
  | .finite s m e hm, h =>
    exact .inr ⟨s, m, e, hm, rfl, EReal.coe_eq_coe_iff.mp (Option.some.inj h).symm⟩

/-! ### Comparing values -/

/-- Canonical numbers above zero are in the order of their exponents, then of their digits. -/
theorem mul_zpow_lt {sign sign' : Sign} {m m' : ℕ} {e e' : ℤ} {hm : 0 < m} {hm' : 0 < m'}
    (h : Canonical (.finite sign m e hm)) (h' : Canonical (.finite sign' m' e' hm'))
    (hlt : e < e' ∨ e = e' ∧ m < m') : (m : ℝ) * 2 ^ e < m' * 2 ^ e' := by
  obtain ⟨hsize, hleast, -⟩ := h
  obtain ⟨-, -, hfull⟩ := h'
  have hpos : (0 : ℝ) < 2 ^ e := by positivity
  rcases hlt with hlt | ⟨rfl, hlt⟩
  · have hfull : 2 ^ 23 ≤ m' := hfull.resolve_left (by omega)
    have hhigh : (m : ℝ) < 2 ^ 24 := by exact_mod_cast hsize
    have hlow : (2 : ℝ) ^ 23 ≤ m' := by exact_mod_cast hfull
    calc (m : ℝ) * 2 ^ e < 2 ^ 24 * 2 ^ e := mul_lt_mul_of_pos_right hhigh hpos
      _ ≤ 2 ^ 23 * 2 ^ e' := two_pow_mul_zpow_le hlt
      _ ≤ m' * 2 ^ e' := by gcongr
  · have hcast : (m : ℝ) < m' := by exact_mod_cast hlt
    exact mul_lt_mul_of_pos_right hcast hpos

/-- A number with a lesser rank has a lesser value. -/
theorem valueOf_lt_of_rank_lt {u v : UnpackedFloat} (hu : Canonical u) (hv : Canonical v)
    {p q : ℤ ×ₗ ℤ ×ₗ ℤ} (hp : rankOf u = some p) (hq : rankOf v = some q) (hlt : p < q)
    {a b : EReal} (ha : valueOf u = some a) (hb : valueOf v = some b) : a < b := by
  have hpos : ∀ {m : ℕ} {e : ℤ}, 0 < m → (0 : ℝ) < m * 2 ^ e := fun hm => by positivity
  rcases u with (_ | _) | - | _ | ⟨(_ | _), m, e, hm⟩ <;>
    rcases v with (_ | _) | - | _ | ⟨(_ | _), m', e', hm'⟩ <;>
    simp only [rankOf, valueOf, Option.some.injEq, reduceCtorEq] at hp hq ha hb <;>
    subst hp hq ha hb <;>
    simp [Prod.Lex.toLex_lt_toLex] at hlt <;>
    simp only [Sign.apply, Int.cast_neg, Int.cast_natCast, neg_mul, EReal.bot_lt_coe,
      EReal.coe_lt_top, EReal.bot_lt_zero, EReal.zero_lt_top, bot_lt_top, EReal.coe_pos,
      EReal.coe_neg', EReal.coe_lt_coe_iff]
  case zero.finite.positive => exact hpos hm'
  case finite.negative.zero => exact neg_neg_of_pos (hpos hm)
  case finite.negative.finite.positive => exact (neg_neg_of_pos (hpos hm)).trans (hpos hm')
  case finite.positive.finite.positive => exact mul_zpow_lt hu hv hlt
  case finite.negative.finite.negative =>
    exact neg_lt_neg (mul_zpow_lt hv hu (hlt.imp_right fun h => ⟨h.1.symm, h.2⟩))

theorem valueOf_eq_of_rank_eq {u v : UnpackedFloat} {p : ℤ ×ₗ ℤ ×ₗ ℤ} (hp : rankOf u = some p)
    (hq : rankOf v = some p) : valueOf u = valueOf v := by
  have heq := hp.trans hq.symm
  rcases u with (_ | _) | - | _ | ⟨(_ | _), m, e, hm⟩ <;>
    rcases v with (_ | _) | - | _ | ⟨(_ | _), m', e', hm'⟩ <;>
    simp [rankOf] at heq
  case finite.negative.finite.negative =>
    obtain ⟨rfl, rfl⟩ := heq
    rfl
  case finite.positive.finite.positive =>
    obtain ⟨rfl, rfl⟩ := heq
    rfl
  all_goals rfl

theorem valueOf_le_iff {u v : UnpackedFloat} (hu : Canonical u) (hv : Canonical v)
    {p q : ℤ ×ₗ ℤ ×ₗ ℤ} (hp : rankOf u = some p) (hq : rankOf v = some q) {a b : EReal}
    (ha : valueOf u = some a) (hb : valueOf v = some b) : a ≤ b ↔ p ≤ q := by
  constructor
  · intro hle
    by_contra hlt
    exact not_le.mpr (valueOf_lt_of_rank_lt hv hu hq hp (not_le.mp hlt) hb ha) hle
  · intro hle
    rcases hle.lt_or_eq with hlt | rfl
    · exact (valueOf_lt_of_rank_lt hu hv hp hq hlt ha hb).le
    · have heq := valueOf_eq_of_rank_eq hp hq
      rw [ha, hb] at heq
      exact (Option.some.inj heq).le

theorem isSome_rankOf (u : UnpackedFloat) : (rankOf u).isSome = (valueOf u).isSome := by
  rcases u with (_ | _) | - | _ | ⟨(_ | _), m, e, hm⟩ <;> rfl

/-! ### Single precision -/

/-- The value of a number; the value that is no number has none. -/
noncomputable def value? (x : Float32) : Option EReal := valueOf x.toModel.unpack

theorem stored (x : Float32) : Stored x.toModel.unpack := stored_unpack _

/-- Numbers compare as their values do. -/
theorem le_iff_value? {x y : Float32} :
    x ≤ y ↔ ∃ a b, value? x = some a ∧ value? y = some b ∧ a ≤ b := by
  rw [le_iff_rank?]
  constructor
  · rintro ⟨p, q, hp, hq, hle⟩
    obtain ⟨a, ha⟩ := Option.isSome_iff_exists.mp
      ((isSome_rankOf _).symm.trans (Option.isSome_of_eq_some hp))
    obtain ⟨b, hb⟩ := Option.isSome_iff_exists.mp
      ((isSome_rankOf _).symm.trans (Option.isSome_of_eq_some hq))
    exact ⟨a, b, ha, hb, (valueOf_le_iff (stored x).1 (stored y).1 hp hq ha hb).mpr hle⟩
  · rintro ⟨a, b, ha, hb, hle⟩
    obtain ⟨p, hp⟩ := Option.isSome_iff_exists.mp
      ((isSome_rankOf _).trans (Option.isSome_of_eq_some ha))
    obtain ⟨q, hq⟩ := Option.isSome_iff_exists.mp
      ((isSome_rankOf _).trans (Option.isSome_of_eq_some hb))
    exact ⟨p, q, hp, hq, (valueOf_le_iff (stored x).1 (stored y).1 hp hq ha hb).mp hle⟩

theorem le_iff_of_value? {x y : Float32} {a b : EReal} (ha : value? x = some a)
    (hb : value? y = some b) : x ≤ y ↔ a ≤ b := by
  rw [le_iff_value?]
  constructor
  · rintro ⟨a', b', ha', hb', hle⟩
    obtain rfl : a = a' := Option.some.inj (ha.symm.trans ha')
    obtain rfl : b = b' := Option.some.inj (hb.symm.trans hb')
    exact hle
  · exact fun hle => ⟨a, b, ha, hb, hle⟩

theorem isNumber_iff_value? {x : Float32} :
    Scalar.isNumber x = true ↔ ∃ a, value? x = some a := by
  rw [isNumber_eq, rank?, isSome_rankOf, Option.isSome_iff_exists, value?]

/-- The finite numbers are those with a real value. -/
theorem isFinite_iff_value? {x : Float32} :
    Scalar.isFinite x = true ↔ ∃ r : ℝ, value? x = some (r : EReal) := by
  show UnpackedFloat.isFinite x.toModel.unpack = true ↔ _
  rw [value?]
  match x.toModel.unpack with
  | .notANumber => simp [UnpackedFloat.isFinite, valueOf]
  | .infinity .positive => simp [UnpackedFloat.isFinite, valueOf]
  | .infinity .negative => simp [UnpackedFloat.isFinite, valueOf]
  | .zero _ => exact iff_of_true rfl ⟨0, rfl⟩
  | .finite .. => exact iff_of_true rfl ⟨_, rfl⟩

/-- `Rounds r x`: the exact value `r` is rounded to the number `x`. -/
def Rounds (r : EReal) (x : Float32) : Prop := ∃ v, Near r v ∧ value? x = some (clip v)

theorem RoundsTo.pack {r : EReal} {u : UnpackedFloat} (h : RoundsTo r u) :
    Rounds r (.ofModel (.pack u)) := by
  obtain ⟨hu, v, hv, hnear⟩ := h
  exact ⟨v, hnear, valueOf_unpack_pack hu hv⟩

/-- Rounding keeps the order. -/
theorem Rounds.le {r s : EReal} {x y : Float32} (hx : Rounds r x) (hy : Rounds s y)
    (hle : r ≤ s) : x ≤ y := by
  obtain ⟨v, hv, hx⟩ := hx
  obtain ⟨w, hw, hy⟩ := hy
  exact le_iff_value?.mpr ⟨_, _, hx, hy, clip_mono (hv.le hw hle)⟩

/-- There is room for the value of a number. -/
theorem value?_clip {x : Float32} {a : EReal} (ha : value? x = some a) :
    value? x = some (clip a) := by
  have hbits := valueOf_unpack_pack (stored x).1 ha
  rwa [unpack_pack (stored x)] at hbits

/-- A number is what its value is rounded to. -/
theorem rounds_self {x : Float32} {a : EReal} (ha : value? x = some a) : Rounds a x :=
  ⟨a, near_self (stored x).1 ha, value?_clip ha⟩

/-- A value is rounded to the number that is less than half of its last digit away. -/
theorem rounds_of_abs_sub_lt {r : ℝ} {t n : ℤ} {x : Float32} (hdigit : LastDigit r t)
    (hnear : |r / 2 ^ t - n| < 1 / 2) (hx : value? x = some ((n * 2 ^ t : ℝ) : EReal)) :
    Rounds r x :=
  ⟨_, .real ⟨t, n, hdigit, ⟨hnear.le, fun h => absurd h hnear.ne⟩, rfl⟩, value?_clip hx⟩

/-- Where the number is finite, its value is the rounded one. -/
theorem Rounds.exists_rounded {r : ℝ} {x : Float32} (h : Rounds r x)
    (hx : Scalar.isFinite x = true) : ∃ v : ℝ, Rounded r v ∧ value? x = some (v : EReal) := by
  obtain ⟨w, hw, hvalue⟩ := h
  obtain ⟨v, rfl, hv⟩ := hw.exists_rounded
  obtain ⟨s, hs⟩ := isFinite_iff_value?.mp hx
  have hclip : clip v = s := Option.some.inj (hvalue.symm.trans hs)
  rw [hclip, ← eq_of_clip_eq_coe hclip] at hvalue
  exact ⟨v, hv, hvalue⟩

/-- A value that rounding leaves as it is, and for which there is room, is that of the number. -/
theorem Rounds.value?_eq {r : ℝ} {x : Float32} (hx : Rounds r x) (hself : Rounded r r)
    (hroom : |r| < 2 ^ 128) : value? x = some (r : EReal) := by
  obtain ⟨v, hv, hx⟩ := hx
  rw [hx, hv.unique (.real hself), clip_of_abs_lt hroom]

theorem unpack_neg (x : Float32) : (-x).toModel.unpack = x.toModel.unpack.neg :=
  unpack_pack (stored x).neg

theorem value?_neg (x : Float32) : value? (-x) = (value? x).map (- ·) := by
  rw [value?, unpack_neg, valueOf_neg]
  rfl

/-- A square does not see the sign. -/
theorem neg_mul_neg_self (x : Float32) : -x * -x = x * x := by
  show Float32.ofModel (.pack (UnpackedFloat.mul .binary32 (-x).toModel.unpack
    (-x).toModel.unpack)) = _
  rw [unpack_neg, mul_neg_neg]
  rfl

theorem Rounds.neg {r : EReal} {x : Float32} (h : Rounds r x) : Rounds (-r) (-x) := by
  obtain ⟨v, hv, hx⟩ := h
  exact ⟨-v, hv.neg, by rw [value?_neg, hx, clip_neg]; rfl⟩

/-- A sum is the exact one, rounded, unless it is of opposite infinities. -/
theorem add_rounds {x y : Float32} {a b : EReal} (ha : value? x = some a) (hb : value? y = some b)
    (htop : ¬(a = ⊤ ∧ b = ⊥)) (hbot : ¬(a = ⊥ ∧ b = ⊤)) : Rounds (a + b) (x + y) :=
  (roundsTo_add (stored x).1 (stored y).1 ha hb htop hbot).pack

theorem finite_add_rounds {x y : Float32} {r : ℝ} {a : EReal} (hr : value? x = some (r : EReal))
    (ha : value? y = some a) : Rounds (r + a) (x + y) :=
  add_rounds hr ha (fun h => EReal.coe_ne_top r h.1) fun h => EReal.coe_ne_bot r h.1

/-- A difference is the exact one, rounded, unless it is of equal infinities. -/
theorem sub_rounds {x y : Float32} {a b : EReal} (ha : value? x = some a) (hb : value? y = some b)
    (htop : ¬(a = ⊤ ∧ b = ⊤)) (hbot : ¬(a = ⊥ ∧ b = ⊥)) : Rounds (a - b) (x - y) := by
  have hsub : x - y = .ofModel (.pack (UnpackedFloat.add .binary32 x.toModel.unpack
      y.toModel.unpack.neg)) :=
    congrArg (fun u => Float32.ofModel (.pack u)) (sub_eq_add_opposite _ _)
  rw [hsub]
  have hneg : valueOf y.toModel.unpack.neg = some (-b) := by
    rw [valueOf_neg, show valueOf y.toModel.unpack = some b from hb]
    rfl
  refine (roundsTo_add (stored x).1 (stored y).neg.1 ha hneg ?_ ?_).pack
  · rwa [EReal.neg_eq_bot_iff]
  · rwa [EReal.neg_eq_top_iff]

theorem sub_finite_rounds {x y : Float32} {a : EReal} {r : ℝ} (ha : value? x = some a)
    (hr : value? y = some (r : EReal)) : Rounds (a - r) (x - y) :=
  sub_rounds ha hr (fun h => EReal.coe_ne_top r h.2) fun h => EReal.coe_ne_bot r h.2

theorem finite_sub_rounds {x y : Float32} {r : ℝ} {a : EReal} (hr : value? x = some (r : EReal))
    (ha : value? y = some a) : Rounds (r - a) (x - y) :=
  sub_rounds hr ha (fun h => EReal.coe_ne_top r h.1) fun h => EReal.coe_ne_bot r h.1

theorem value?_zero : value? (0 : Float32) = some 0 := rfl

theorem value?_of_unpack {x : Float32} {m : ℕ} {e : ℤ} {hm : 0 < m}
    (h : x.toModel.unpack = .finite .positive m e hm) :
    value? x = some ((m * 2 ^ e : ℝ) : EReal) := by
  rw [value?, h, valueOf, Sign.apply]
  norm_cast

theorem unpack_one : (1 : Float32).toModel.unpack = .finite .positive (2 ^ 23) (-23) (by decide) :=
  rfl

theorem value?_one : value? (1 : Float32) = some ((1 : ℝ) : EReal) := by
  have hvalue : ((2 ^ 23 : ℕ) : ℝ) * 2 ^ (-23 : ℤ) = 1 := by norm_num
  rw [value?_of_unpack unpack_one, hvalue]

/-- A product of finite numbers is the exact one, rounded. -/
theorem mul_rounds {x y : Float32} {r s : ℝ} (hr : value? x = some (r : EReal))
    (hs : value? y = some (s : EReal)) : Rounds (r * s : ℝ) (x * y) := by
  refine RoundsTo.pack (u := UnpackedFloat.mul .binary32 x.toModel.unpack y.toModel.unpack) ?_
  have hx := (stored x).1
  have hy := (stored y).1
  rcases cases_of_valueOf hr with ⟨t, hu, rfl⟩ | ⟨t, m, e, hm, hu, rfl⟩ <;>
    rcases cases_of_valueOf hs with ⟨t', hv, rfl⟩ | ⟨t', m', e', hm', hv, rfl⟩ <;>
    rw [hu] at hx ⊢ <;> rw [hv] at hy ⊢
  · rw [mul_zero]
    exact roundsTo_zero _
  · rw [zero_mul]
    exact roundsTo_zero _
  · rw [mul_zero]
    exact roundsTo_zero _
  · exact roundsTo_mul_finite hx hy

/-- A square is the exact one, rounded. -/
theorem mul_self_rounds {x : Float32} {a : EReal} (ha : value? x = some a) :
    Rounds (a * a) (x * x) :=
  (roundsTo_mul_self (stored x).1 ha).pack

end Single

end ForceDiagram
