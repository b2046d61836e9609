/-
ForceDiagram/Proofs/Scalar/Nearest.lean

Rounding of exact values to 24 binary digits.

The digits of a value end at a power of two, which its size determines (`LastDigit`): 23 places
behind the first digit, but never below `2 ^ -149`.  The value is rounded to the nearest multiple
of that power, and of two that are equally near to the even one (`NearestInt`).  From `2 ^ 128`
on a rounded value is infinite (`clip`).

All of this is said by relations that hold between a value and the rounded one, and what is
needed of them is that they keep the order (`Near.le`) and the sign (`Near.neg`).  The powers
change from place to place; that rounding keeps the order across such a place is because the
greatest value with the lesser power rounds at most to the least one with the greater power.

Numbers are computed with apart from their bits, by a sign, digits and the place of the last of
them (`Canonical`), and stand for values (`valueOf`).  Of the digits that are dropped two bits
are kept, which tell nothing, less than a half, a half and more apart (`Stands`); this is all
that rounding to the nearest needs to know (`Stands.nearestInt`).
-/
import Mathlib

namespace ForceDiagram

namespace Single

open Float.Model Float.Model.UnpackedFloat

/-! ### Whole numbers -/

/-- The whole number nearest to a value, the even one of two that are equally near. -/
def NearestInt (x : ℝ) (n : ℤ) : Prop := |x - n| ≤ 1 / 2 ∧ (|x - n| = 1 / 2 → Even n)

theorem NearestInt.self (n : ℤ) : NearestInt n n := by
  rw [NearestInt, sub_self, abs_zero]
  exact ⟨by norm_num, fun h => by norm_num at h⟩

theorem NearestInt.two_pow (k : ℕ) : NearestInt (2 ^ k) (2 ^ k) := by
  simpa only [Int.cast_pow, Int.cast_ofNat] using NearestInt.self (2 ^ k)

theorem NearestInt.neg {x : ℝ} {n : ℤ} (h : NearestInt x n) : NearestInt (-x) (-n) := by
  have habs : |-x - ((-n : ℤ) : ℝ)| = |x - n| := by
    rw [Int.cast_neg, neg_sub_neg, abs_sub_comm]
  rw [NearestInt, habs]
  exact ⟨h.1, fun heq => (h.2 heq).neg⟩

theorem NearestInt.le {x y : ℝ} {m n : ℤ} (hm : NearestInt x m) (hn : NearestInt y n)
    (hxy : x ≤ y) : m ≤ n := by
  by_contra hlt
  have hgap : (n : ℝ) + 1 ≤ m := by exact_mod_cast Int.add_one_le_of_lt (not_le.mp hlt)
  have hx := abs_le.mp hm.1
  have hy := abs_le.mp hn.1
  -- there is no room but for two neighbours with the value in the middle
  have hmid : x - m = -(1 / 2) := by linarith
  have hmid' : y - n = 1 / 2 := by linarith
  have hmeven : Even m := hm.2 (by rw [hmid, abs_neg]; norm_num)
  have hneven : Even n := hn.2 (by rw [hmid']; norm_num)
  have hsucc : m = n + 1 := by
    have : (m : ℝ) = n + 1 := by linarith
    exact_mod_cast this
  rw [hsucc] at hmeven
  exact Int.not_even_iff_odd.mpr hneven.add_one hmeven

/-! ### Dropping digits -/

/-- The mantissa and the two bits behind it tell where a value is: at the mantissa, or before,
at or behind the middle between it and the next one. -/
def Stands (m : ExtendedMantissa) (x : ℝ) : Prop :=
  match m with
  | ⟨n, false, false⟩ => x = n
  | ⟨n, false, true⟩ => n < x ∧ x < n + 1 / 2
  | ⟨n, true, false⟩ => x = n + 1 / 2
  | ⟨n, true, true⟩ => n + 1 / 2 < x ∧ x < n + 1

theorem Stands.shiftRightOne {m : ExtendedMantissa} {x : ℝ} (h : Stands m x) :
    Stands m.shiftRightOne (x / 2) := by
  obtain ⟨n, roundBit, stickyBit⟩ := m
  have hcast : (n : ℝ) = 2 * (n / 2 : ℕ) + (n % 2 : ℕ) := by
    exact_mod_cast (Nat.div_add_mod n 2).symm
  -- the digit dropped last is the new bit, and the bits before it are put together
  rcases Nat.mod_two_eq_zero_or_one n with hmod | hmod <;> rw [hmod] at hcast <;>
    cases roundBit <;> cases stickyBit <;>
    simp only [Stands, ExtendedMantissa.shiftRightOne, hmod, Bool.or_false, Bool.or_true,
      bne_self_eq_false, Nat.cast_zero, Nat.cast_one, show (1 != 0) = true from rfl] at h hcast ⊢
  all_goals first
    | linarith
    | exact ⟨by linarith, by linarith⟩

theorem Stands.shiftRight {m : ExtendedMantissa} {x : ℝ} (h : Stands m x) (k : ℕ) :
    Stands (m >>> k) (x / 2 ^ k) := by
  induction k with
  | zero =>
    rw [pow_zero, div_one]
    exact h
  | succ k ih =>
    have hstep : m >>> (k + 1) = (m >>> k).shiftRightOne := rfl
    rw [hstep, pow_succ, ← div_div]
    exact ih.shiftRightOne

/-- The two bits are enough to round to the nearest whole number. -/
theorem Stands.nearestInt {m : ExtendedMantissa} {x : ℝ} (h : Stands m x) :
    NearestInt x m.roundedMantissa := by
  match m, h with
  | ⟨n, false, false⟩, (h : x = n) => exact h ▸ NearestInt.self n
  | ⟨n, false, true⟩, ⟨hlow, hhigh⟩ =>
    have habs : |x - ((n : ℕ) : ℤ)| < 1 / 2 := by
      rw [Int.cast_natCast, abs_lt]
      exact ⟨by linarith, by linarith⟩
    exact ⟨habs.le, fun heq => absurd heq habs.ne⟩
  | ⟨n, true, false⟩, (h : x = n + 1 / 2) =>
    show NearestInt x ((n + n % 2 : ℕ) : ℤ)
    have heven : Even (n + n % 2) := by
      rw [Nat.even_iff]
      omega
    refine ⟨?_, fun _ => by exact_mod_cast heven⟩
    rcases Nat.mod_two_eq_zero_or_one n with hmod | hmod <;>
      rw [hmod, h, Int.cast_natCast, abs_le] <;> push_cast <;>
      exact ⟨by linarith, by linarith⟩
  | ⟨n, true, true⟩, ⟨hlow, hhigh⟩ =>
    show NearestInt x ((n + 1 : ℕ) : ℤ)
    have habs : |x - (((n + 1 : ℕ) : ℤ) : ℝ)| < 1 / 2 := by
      rw [Int.cast_natCast, abs_lt]
      push_cast
      exact ⟨by linarith, by linarith⟩
    exact ⟨habs.le, fun heq => absurd heq habs.ne⟩

/-! ### The last digit -/

/-- The digits of a value of this size end with the power `2 ^ t`. -/
structure LastDigit (r : ℝ) (t : ℤ) : Prop where
  least : -149 ≤ t
  lt : |r| < 2 ^ (t + 24)
  le : t = -149 ∨ 2 ^ (t + 23) ≤ |r|

theorem LastDigit.neg {r : ℝ} {t : ℤ} (h : LastDigit r t) : LastDigit (-r) t := by
  refine ⟨h.least, ?_, ?_⟩
  · rw [abs_neg]
    exact h.lt
  · rw [abs_neg]
    exact h.le

/-- A value is the nearest one with 24 digits to an exact one. -/
def Rounded (r v : ℝ) : Prop :=
  ∃ t n, LastDigit r t ∧ NearestInt (r / 2 ^ t) n ∧ v = n * 2 ^ t

/-- The digits that rounding leaves: one too many at most, and 24 at least unless the last one is at
its least place. -/
theorem LastDigit.digits {r : ℝ} {t n : ℤ} (h : LastDigit r t) (hr : 0 ≤ r)
    (hn : NearestInt (r / 2 ^ t) n) : n ≤ 2 ^ 24 ∧ (t = -149 ∨ 2 ^ 23 ≤ n) := by
  have hpos : (0 : ℝ) < 2 ^ t := by positivity
  obtain ⟨-, hlt, hle⟩ := h
  rw [abs_of_nonneg hr] at hlt hle
  refine ⟨hn.le (.two_pow 24) ?_, hle.imp_right fun hle => (NearestInt.two_pow 23).le hn ?_⟩
  · rw [div_le_iff₀ hpos, ← zpow_natCast, ← zpow_add₀ two_ne_zero]
    exact (add_comm t 24 ▸ hlt).le
  · rw [le_div_iff₀ hpos, ← zpow_natCast, ← zpow_add₀ two_ne_zero]
    exact add_comm t 23 ▸ hle

/-- The greatest value with the lesser power and the least one with the greater power. -/
theorem two_pow_mul_zpow_le {t t' : ℤ} (h : t < t') :
    (2 : ℝ) ^ 24 * 2 ^ t ≤ 2 ^ 23 * 2 ^ t' :=
  calc (2 : ℝ) ^ 24 * 2 ^ t = 2 ^ 23 * 2 ^ (t + 1) := by rw [zpow_add_one₀ two_ne_zero]; ring
    _ ≤ 2 ^ 23 * 2 ^ t' := by
      gcongr
      · norm_num
      · omega

theorem Rounded.neg {r v : ℝ} (h : Rounded r v) : Rounded (-r) (-v) := by
  obtain ⟨t, n, ht, hn, rfl⟩ := h
  refine ⟨t, -n, ht.neg, ?_, ?_⟩
  · rw [neg_div]
    exact hn.neg
  · push_cast
    ring

theorem Rounded.nonneg {r v : ℝ} (h : Rounded r v) (hr : 0 ≤ r) : 0 ≤ v := by
  obtain ⟨t, n, ht, hn, rfl⟩ := h
  have hzero : NearestInt (0 : ℝ) 0 := by simpa using NearestInt.self 0
  have hn : 0 ≤ n := hzero.le hn (by positivity)
  have hcast : (0 : ℝ) ≤ n := by exact_mod_cast hn
  positivity

/-- Rounding keeps the order of values that are not negative. -/
theorem Rounded.le_of_nonneg {r r' v v' : ℝ} (h : Rounded r v) (h' : Rounded r' v') (hr : 0 ≤ r)
    (hle : r ≤ r') : v ≤ v' := by
  obtain ⟨t, n, ht, hn, rfl⟩ := h
  obtain ⟨t', n', ht', hn', rfl⟩ := h'
  rcases lt_trichotomy t t' with htt | rfl | htt
  · -- the first is at most a power of two, and the second at least that power
    have hlow := (ht.digits hr hn).1
    have hhigh := (ht'.digits (hr.trans hle) hn').2.resolve_left (by have := ht.least; omega)
    have hlow' : (n : ℝ) ≤ 2 ^ 24 := by exact_mod_cast hlow
    have hhigh' : (2 : ℝ) ^ 23 ≤ n' := by exact_mod_cast hhigh
    calc (n : ℝ) * 2 ^ t ≤ 2 ^ 24 * 2 ^ t := by gcongr
      _ ≤ 2 ^ 23 * 2 ^ t' := two_pow_mul_zpow_le htt
      _ ≤ n' * 2 ^ t' := by gcongr
  · have hcast : (n : ℝ) ≤ n' := by exact_mod_cast hn.le hn' (by gcongr)
    gcongr
  · -- a lesser value does not have a greater power
    exfalso
    have hbound := ht.le.resolve_left (by have := ht'.least; omega)
    have hlt' := ht'.lt
    rw [abs_of_nonneg hr] at hbound
    rw [abs_of_nonneg (hr.trans hle)] at hlt'
    have hmono : (2 : ℝ) ^ (t' + 24) ≤ 2 ^ (t + 23) :=
      zpow_le_zpow_right₀ one_le_two (by omega)
    linarith

theorem Rounded.le {r r' v v' : ℝ} (h : Rounded r v) (h' : Rounded r' v') (hle : r ≤ r') :
    v ≤ v' := by
  rcases le_total 0 r with hr | hr
  · exact h.le_of_nonneg h' hr hle
  · rcases le_total 0 r' with hr' | hr'
    · have hv := h.neg.nonneg (neg_nonneg.mpr hr)
      have hv' := h'.nonneg hr'
      linarith
    · exact neg_le_neg_iff.mp (h'.neg.le_of_nonneg h.neg (neg_nonneg.mpr hr') (neg_le_neg hle))

/-! ### Infinite values -/

/-- An infinite value is rounded to itself. -/
inductive Near : EReal → EReal → Prop where
  | top : Near ⊤ ⊤
  | bot : Near ⊥ ⊥
  | real {r v : ℝ} (h : Rounded r v) : Near r v

theorem Near.neg {r v : EReal} (h : Near r v) : Near (-r) (-v) := by
  cases h with
  | top => exact .bot
  | bot => exact .top
  | real h => exact .real h.neg

theorem Near.le {r r' v v' : EReal} (h : Near r v) (h' : Near r' v') (hle : r ≤ r') : v ≤ v' := by
  cases h with
  | top =>
    cases h' with
    | top => exact le_rfl
    | bot => exact hle
    | real => exact absurd hle (by simp)
  | bot => exact bot_le
  | real h =>
    cases h' with
    | top => exact le_top
    | bot => exact absurd hle (by simp)
    | real h' => exact EReal.coe_le_coe (h.le h' (EReal.coe_le_coe_iff.mp hle))

/-- What a value is rounded to is determined. -/
theorem Near.unique {r v w : EReal} (h : Near r v) (h' : Near r w) : v = w :=
  le_antisymm (h.le h' le_rfl) (h'.le h le_rfl)

theorem Near.exists_rounded {r : ℝ} {v : EReal} (h : Near r v) :
    ∃ w : ℝ, v = w ∧ Rounded r w := by
  generalize ha : (r : EReal) = a at h
  cases h with
  | top => exact absurd ha (EReal.coe_ne_top r)
  | bot => exact absurd ha (EReal.coe_ne_bot r)
  | real h =>
    obtain rfl := EReal.coe_eq_coe_iff.mp ha
    exact ⟨_, rfl, h⟩

/-- What becomes of a rounded value: from `2 ^ 128` on there is no room for it. -/
noncomputable def clip (v : EReal) : EReal :=
  if ((2 ^ 128 : ℝ) : EReal) ≤ v then ⊤ else if v ≤ -((2 ^ 128 : ℝ) : EReal) then ⊥ else v

theorem clip_mono : Monotone clip := by
  intro v w hle
  unfold clip
  split_ifs with hv hw hw' hv' hw hw' hw hw'
  all_goals first | exact le_top | exact bot_le | exact hle | skip
  · exact absurd (hv.trans hle) hw
  · exact absurd (hv.trans hle) hw
  · exact absurd (hle.trans hw') hv'

theorem clip_neg (v : EReal) : clip (-v) = -clip v := by
  have hbound : -((2 ^ 128 : ℝ) : EReal) < ((2 ^ 128 : ℝ) : EReal) := by
    rw [← EReal.coe_neg, EReal.coe_lt_coe_iff]
    norm_num
  have hle : ((2 ^ 128 : ℝ) : EReal) ≤ -v ↔ v ≤ -((2 ^ 128 : ℝ) : EReal) := EReal.le_neg
  simp only [clip, hle, EReal.neg_le_neg_iff]
  split_ifs with hv hw hw
  · exact absurd (hw.trans hv) (not_le.mpr hbound)
  · exact EReal.neg_bot.symm
  · exact EReal.neg_top.symm
  · rfl

theorem clip_of_le {v : ℝ} (h : 2 ^ 128 ≤ v) : clip v = ⊤ :=
  if_pos (EReal.coe_le_coe h)

theorem clip_of_abs_lt {v : ℝ} (h : |v| < 2 ^ 128) : clip v = v := by
  obtain ⟨hlow, hhigh⟩ := abs_lt.mp h
  rw [clip, if_neg, if_neg]
  · rw [← EReal.coe_neg, EReal.coe_le_coe_iff]
    exact not_le.mpr hlow
  · rw [EReal.coe_le_coe_iff]
    exact not_le.mpr hhigh

/-- What stays finite is left as it is. -/
theorem eq_of_clip_eq_coe {v : EReal} {s : ℝ} (h : clip v = s) : v = s := by
  unfold clip at h
  split_ifs at h
  · exact absurd h.symm (EReal.coe_ne_top s)
  · exact absurd h.symm (EReal.coe_ne_bot s)
  · exact h

theorem clip_top : clip ⊤ = ⊤ := if_pos le_top

theorem clip_bot : clip ⊥ = ⊥ := by
  rw [← EReal.neg_top, clip_neg, clip_top]

theorem clip_zero : clip 0 = 0 := by
  have h := clip_of_abs_lt (v := 0) (by norm_num)
  exact_mod_cast h

/-! ### Numbers -/

/-- The value that a number stands for. -/
noncomputable def valueOf : UnpackedFloat → Option EReal
  | .infinity .positive => some ⊤
  | .infinity .negative => some ⊥
  | .zero _ => some 0
  | .finite sign mantissa exponent _ =>
    some (((sign.apply mantissa : ℤ) * 2 ^ exponent : ℝ) : EReal)
  | .notANumber => none

/-- A finite number has at most 24 digits, and fewer only if the last is at its least place. -/
def Canonical : UnpackedFloat → Prop
  | .finite _ mantissa exponent _ =>
    mantissa < 2 ^ 24 ∧ -149 ≤ exponent ∧ (exponent = -149 ∨ 2 ^ 23 ≤ mantissa)
  | _ => True

theorem abs_apply (sign : Sign) (n : ℕ) : |((sign.apply n : ℤ) : ℝ)| = n := by
  cases sign <;> simp [Sign.apply]

theorem rounded_zero : Rounded 0 0 := by
  have hdigit : LastDigit 0 (-149) := ⟨le_rfl, by rw [abs_zero]; positivity, .inl rfl⟩
  exact ⟨-149, 0, hdigit, by simpa using NearestInt.self 0, by simp⟩

/-- The digits of a canonical number end where those of its value do. -/
theorem lastDigit_of_canonical {sign : Sign} {m : ℕ} {e : ℤ} {hm : 0 < m}
    (h : Canonical (.finite sign m e hm)) :
    LastDigit ((sign.apply m : ℤ) * 2 ^ e) e := by
  obtain ⟨hlt, hleast, hle⟩ := h
  have habs : |((sign.apply m : ℤ) : ℝ) * 2 ^ e| = m * 2 ^ e := by
    rw [abs_mul, abs_apply, abs_of_pos (by positivity)]
  have hpow : ∀ k : ℕ, (2 : ℝ) ^ (e + k) = 2 ^ k * 2 ^ e := fun k => by
    rw [zpow_add₀ two_ne_zero, zpow_natCast, mul_comm]
  refine ⟨hleast, ?_, hle.imp_right fun hle => ?_⟩
  · rw [habs]
    have hcast : (m : ℝ) < 2 ^ 24 := by exact_mod_cast hlt
    exact (mul_lt_mul_of_pos_right hcast (by positivity)).trans_eq (hpow 24).symm
  · rw [habs]
    have hcast : (2 : ℝ) ^ 23 ≤ m := by exact_mod_cast hle
    exact (hpow 23).trans_le (mul_le_mul_of_nonneg_right hcast (by positivity))

/-- A canonical number is what its value is rounded to. -/
theorem near_self {u : UnpackedFloat} (h : Canonical u) {v : EReal} (hv : valueOf u = some v) :
    Near v v := by
  match u, h, hv with
  | .infinity .positive, _, rfl => exact .top
  | .infinity .negative, _, rfl => exact .bot
  | .zero _, _, rfl => exact .real rounded_zero
  | .finite sign m e _, h, rfl =>
    refine .real ⟨e, sign.apply m, lastDigit_of_canonical h, ?_, rfl⟩
    rw [mul_div_cancel_right₀ _ (by positivity)]
    exact NearestInt.self _

end Single

end ForceDiagram
