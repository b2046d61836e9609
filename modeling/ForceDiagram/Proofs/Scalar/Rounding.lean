/-
ForceDiagram/Proofs/Scalar/Rounding.lean

What operations on numbers in single precision compute: the exact value, rounded.

An operation computes exactly and then drops digits until there are 24, or until the last one is
at its least place.  What comes out is the nearest number of `Nearest`, and it is canonical
(`RoundsTo`): where rounding makes a digit too many, the one dropped for it is zero.

Here there is room for any exponent; what bits have no room for is the subject of `Values`.

Main results: `roundsTo_of_stands`, `roundsTo_add`, `roundsTo_mul_finite` and
`roundsTo_mul_self`.
-/
import ForceDiagram.Proofs.Scalar.Counts
import ForceDiagram.Proofs.Scalar.Nearest

namespace ForceDiagram

namespace Single

open Float.Model Float.Model.UnpackedFloat

/-! ### Cutting a mantissa -/

/-- Where the last digit of a mantissa is to be, if it has the given place now. -/
theorem targetExponent_eq (m : ℕ) (e : ℤ) :
    Format.binary32.targetExponent (totalExponent m e) = max (m.log2 + e - 23) (-149) := by
  have hmin : Format.binary32.minExponent = -149 := by decide
  have hdigits : (Format.binary32.mantissaBits : ℤ) = 24 := by decide
  rw [Format.targetExponent, totalExponent, hmin, hdigits]
  congr 1
  omega

/-- A mantissa, with what is known of the digits behind it, bounds its value. -/
theorem Stands.bounds {m : ℕ} {accuracy : Accuracy} {x : ℝ}
    (h : Stands (.ofMantissaAndAccuracy m accuracy) x) : m ≤ x ∧ x < m + 1 := by
  match accuracy, h with
  | .exact, (h : x = m) => exact ⟨h.ge, by linarith⟩
  | .inexact .lt, ⟨hlow, hhigh⟩ => exact ⟨hlow.le, by linarith⟩
  | .inexact .eq, (h : x = m + 1 / 2) => exact ⟨by linarith, by linarith⟩
  | .inexact .gt, ⟨hlow, hhigh⟩ => exact ⟨by linarith, hhigh⟩

/-- A mantissa whose last digit is moved to a place not before its own. -/
theorem Stands.nearestInt_shiftToExponent {m : ℕ} {accuracy : Accuracy} {x : ℝ}
    (hx : Stands (.ofMantissaAndAccuracy m accuracy) x) {e t : ℤ} (h : e ≤ t) :
    (shiftToExponent m e accuracy t).2 = t ∧
      NearestInt (x * 2 ^ e / 2 ^ t) (shiftToExponent m e accuracy t).1.roundedMantissa := by
  obtain ⟨k, rfl⟩ := Int.le.dest h
  have hshift : (e + k - e).toNat = k := by omega
  have hvalue : x * 2 ^ e / 2 ^ (e + k) = x / 2 ^ k := by
    rw [zpow_add₀ two_ne_zero, zpow_natCast]
    field_simp
  rw [shiftToExponent, hshift, hvalue]
  exact ⟨rfl, (hx.shiftRight k).nearestInt⟩

/-- The digits of a mantissa end, once it is cut, where those of its value do.  A mantissa without
any digit has to have its place that far behind. -/
theorem lastDigit_target {m : ℕ} {x : ℝ} (hlow : m ≤ x) (hhigh : x < m + 1) {e : ℤ}
    (hnone : m = 0 → e ≤ -149) :
    LastDigit (x * 2 ^ e) (max (m.log2 + e - 23) (-149)) := by
  have hpos : (0 : ℝ) < 2 ^ e := by positivity
  have hnonneg : 0 ≤ x := (Nat.cast_nonneg m).trans hlow
  have habs : |x * 2 ^ e| = x * 2 ^ e := abs_of_nonneg (by positivity)
  refine ⟨le_max_right _ _, ?_, ?_⟩
  · have hlt : (m : ℝ) + 1 ≤ 2 ^ ((m.log2 : ℤ) + 1) := by
      rw [← Nat.cast_succ, ← Nat.cast_succ, zpow_natCast]
      exact_mod_cast Nat.succ_le_of_lt Nat.lt_log2_self
    rw [habs]
    calc x * 2 ^ e < 2 ^ ((m.log2 : ℤ) + 1) * 2 ^ e :=
          mul_lt_mul_of_pos_right (hhigh.trans_le hlt) hpos
      _ = 2 ^ ((m.log2 : ℤ) + 1 + e) := (zpow_add₀ two_ne_zero _ _).symm
      _ ≤ _ := zpow_le_zpow_right₀ one_le_two (by omega)
  · rw [habs]
    rcases le_total ((m.log2 : ℤ) + e - 23) (-149) with hle | hle
    · exact .inl (max_eq_right hle)
    · have hne : m ≠ 0 := by
        rintro rfl
        have hleast := hnone rfl
        rw [Nat.log2_zero] at hle
        omega
      have hdigits : (2 : ℝ) ^ (m.log2 : ℤ) ≤ x := by
        rw [zpow_natCast]
        exact le_trans (by exact_mod_cast Nat.log2_self_le hne) hlow
      right
      rw [max_eq_left hle]
      calc (2 : ℝ) ^ ((m.log2 : ℤ) + e - 23 + 23) = 2 ^ (m.log2 : ℤ) * 2 ^ e := by
            rw [← zpow_add₀ two_ne_zero]
            congr 1
            omega
        _ ≤ x * 2 ^ e := mul_le_mul_of_nonneg_right hdigits hpos.le

/-- Digits that fit are left as they are. -/
theorem rounded_self {m : ℕ} (hm : m < 2 ^ 24) {e : ℤ} (he : -149 ≤ e) :
    Rounded (m * 2 ^ e) (m * 2 ^ e) := by
  rcases m.eq_zero_or_pos with rfl | hpos
  · rw [Nat.cast_zero, zero_mul]
    exact rounded_zero
  · have hlog : m.log2 < 24 := (Nat.log2_lt hpos.ne').mpr hm
    obtain ⟨k, hk⟩ : ∃ k : ℕ, e - max ((m.log2 : ℤ) + e - 23) (-149) = k :=
      Int.eq_ofNat_of_zero_le (by omega)
    have hdigit := lastDigit_target le_rfl (lt_add_one (m : ℝ)) (e := e) (by omega)
    rw [show max ((m.log2 : ℤ) + e - 23) (-149) = e - k by omega] at hdigit
    have hvalue : (m : ℝ) * 2 ^ e = (m * 2 ^ k : ℤ) * 2 ^ (e - k) := by
      rw [zpow_sub₀ two_ne_zero, zpow_natCast]
      push_cast
      field_simp
    refine ⟨e - k, m * 2 ^ k, hdigit, ?_, hvalue⟩
    rw [hvalue, mul_div_cancel_right₀ _ (by positivity)]
    exact NearestInt.self _

/-- Rounding a rounded value again changes nothing. -/
theorem Rounded.self {r v : ℝ} (h : Rounded r v) : Rounded v v := by
  have hself : ∀ {r v : ℝ}, Rounded r v → 0 ≤ r → Rounded v v := by
    intro r v h hr
    have hv := h.nonneg hr
    obtain ⟨t, n, ht, hn, rfl⟩ := h
    obtain ⟨m, rfl⟩ : ∃ m : ℕ, n = m :=
      Int.eq_ofNat_of_zero_le (by exact_mod_cast nonneg_of_mul_nonneg_left hv (by positivity))
    have hdigits : m ≤ 2 ^ 24 := by exact_mod_cast (ht.digits hr hn).1
    rw [Int.cast_natCast]
    rcases hdigits.lt_or_eq with hlt | rfl
    · exact rounded_self hlt ht.least
    · -- a digit too many, but it is zero
      have hcarry : ((2 ^ 24 : ℕ) : ℝ) * 2 ^ t = (2 ^ 23 : ℕ) * 2 ^ (t + 1) := by
        rw [zpow_add_one₀ two_ne_zero]
        push_cast
        ring
      have hleast := ht.least
      rw [hcarry]
      exact rounded_self (by norm_num) (by omega)
  rcases le_total 0 r with hr | hr
  · exact hself h hr
  · have hneg := (hself h.neg (neg_nonneg.mpr hr)).neg
    rwa [neg_neg] at hneg

/-- Digits are rounded in the same way when they are moved back, unless they get beyond the least
place. -/
theorem Rounded.div_two_pow {r v : ℝ} (h : Rounded r v) {k : ℕ}
    (hr : (2 : ℝ) ^ ((k : ℤ) - 126) ≤ |r|) : Rounded (r / 2 ^ k) (v / 2 ^ k) := by
  obtain ⟨t, n, ⟨-, hlt, hle⟩, hn, rfl⟩ := h
  have hleast : -149 ≤ t - k := by
    by_contra hlow
    have hmono : (2 : ℝ) ^ (t + 24) ≤ 2 ^ ((k : ℤ) - 126) :=
      zpow_le_zpow_right₀ one_le_two (by omega)
    exact absurd (hlt.trans_le (hmono.trans hr)) (lt_irrefl _)
  have habs : |r / 2 ^ k| = |r| / 2 ^ k := by
    rw [abs_div, abs_of_pos (show (0 : ℝ) < 2 ^ k by positivity)]
  have hplace : ∀ i : ℤ, (2 : ℝ) ^ (i - k) = 2 ^ i / 2 ^ k := fun i => by
    rw [zpow_sub₀ two_ne_zero, zpow_natCast]
  refine ⟨t - k, n, ⟨hleast, ?_, ?_⟩, ?_, ?_⟩
  · rw [habs, show t - k + 24 = t + 24 - k by omega, hplace]
    gcongr
  · rw [habs, show t - k + 23 = t + 23 - k by omega, hplace]
    exact hle.imp (fun hleast => by omega) fun hle => by gcongr
  · rw [hplace, div_div_div_cancel_right₀ (by positivity)]
    exact hn
  · rw [hplace, mul_div_assoc]

/-! ### Rounding -/

/-- The number is what an exact value is rounded to, with room for any exponent. -/
def RoundsTo (r : EReal) (u : UnpackedFloat) : Prop :=
  Canonical u ∧ ∃ v, valueOf u = some v ∧ Near r v

/-- A mantissa that rounding has made one digit too long loses a digit that is zero. -/
theorem shiftToTargetExponent_carry {n : ℕ} {t : ℤ} (hn : n ≤ 2 ^ 24) (hleast : -149 ≤ t)
    (hfull : t = -149 ∨ 2 ^ 23 ≤ n) :
    ∃ m e, (shiftToTargetExponent .binary32 n t .exact).1.mantissa = m ∧
      (shiftToTargetExponent .binary32 n t .exact).2 = e ∧
      (m < 2 ^ 24 ∧ -149 ≤ e ∧ (e = -149 ∨ 2 ^ 23 ≤ m)) ∧ (m : ℝ) * 2 ^ e = n * 2 ^ t := by
  rw [shiftToTargetExponent, targetExponent_eq, shiftToExponent]
  rcases hn.lt_or_eq with hlt | rfl
  · have hlog : n.log2 ≤ 23 := by
      rcases n.eq_zero_or_pos with rfl | hpos
      · decide
      · exact Nat.le_of_lt_succ ((Nat.log2_lt hpos.ne').mpr hlt)
    have hshift : (max ((n.log2 : ℤ) + t - 23) (-149) - t).toNat = 0 := by omega
    rw [hshift]
    exact ⟨n, t, rfl, by simp, ⟨hlt, hleast, hfull⟩, rfl⟩
  · have hshift : (max (((2 ^ 24 : ℕ).log2 : ℤ) + t - 23) (-149) - t).toNat = 1 := by
      rw [Nat.log2_two_pow]
      omega
    rw [hshift]
    refine ⟨2 ^ 23, t + 1, mantissa_shiftRight _ _, rfl, ⟨by norm_num, by omega, .inr le_rfl⟩, ?_⟩
    rw [zpow_add_one₀ two_ne_zero]
    push_cast
    ring

/-- A size with a sign. -/
def signed (sign : Sign) (r : ℝ) : ℝ :=
  match sign with
  | .negative => -r
  | .positive => r

theorem apply_mul_eq_signed (sign : Sign) (n : ℕ) (r : ℝ) :
    ((sign.apply n : ℤ) : ℝ) * r = signed sign (n * r) := by
  cases sign with
  | negative => rw [Sign.apply, Int.cast_neg, Int.cast_natCast, neg_mul, signed]
  | positive => rw [Sign.apply, Int.cast_natCast, signed]

theorem Rounded.signed {r v : ℝ} (h : Rounded r v) (sign : Sign) :
    Rounded (signed sign r) (signed sign v) := by
  cases sign with
  | negative => exact h.neg
  | positive => exact h

/-- Rounding takes the nearest number, if there are digits enough. -/
theorem roundsTo_of_stands (sign : Sign) {m : ℕ} {accuracy : Accuracy} {x : ℝ}
    (hx : Stands (.ofMantissaAndAccuracy m accuracy) x) {e : ℤ}
    (he : e ≤ max (m.log2 + e - 23) (-149)) :
    RoundsTo (signed sign (x * 2 ^ e) : ℝ) (roundWithAccuracy .binary32 sign m e accuracy) := by
  have hbounds := hx.bounds
  have hdigit := lastDigit_target hbounds.1 hbounds.2 (e := e) (by
    rintro rfl
    rw [Nat.log2_zero] at he
    omega)
  obtain ⟨hplace, hnearest⟩ := hx.nearestInt_shiftToExponent he
  have hfirst : shiftToTargetExponent .binary32 m e accuracy =
      shiftToExponent m e accuracy (max (m.log2 + e - 23) (-149)) := by
    rw [shiftToTargetExponent, targetExponent_eq]
  unfold roundWithAccuracy
  rw [hfirst]
  rw [← hplace] at hdigit
  nth_rewrite 1 [← hplace] at hnearest
  generalize shiftToExponent m e accuracy (max ((m.log2 : ℤ) + e - 23) (-149)) = cut at *
  obtain ⟨cut, t⟩ := cut
  dsimp only at hdigit hnearest ⊢
  have hnonneg : 0 ≤ x * 2 ^ e :=
    mul_nonneg ((Nat.cast_nonneg m).trans hbounds.1) (by positivity)
  obtain ⟨hhigh, hlow⟩ := hdigit.digits hnonneg hnearest
  have hrounded : Rounded (x * 2 ^ e) (cut.roundedMantissa * 2 ^ t) :=
    ⟨t, cut.roundedMantissa, hdigit, hnearest, by rw [Int.cast_natCast]⟩
  obtain ⟨m', e', hm', he', hcanonical, hvalue⟩ :=
    shiftToTargetExponent_carry (by exact_mod_cast hhigh) hdigit.least (by exact_mod_cast hlow)
  have hsigned := (hvalue ▸ hrounded).signed sign
  split
  · next hzero =>
    rw [← hm', hzero, Nat.cast_zero, zero_mul] at hsigned
    refine ⟨trivial, 0, rfl, .real ?_⟩
    cases sign with
    | negative => exact neg_zero (G := ℝ) ▸ hsigned
    | positive => exact hsigned
  · subst hm' he'
    exact ⟨hcanonical, _, rfl, .real (apply_mul_eq_signed sign _ _ ▸ hsigned)⟩

/-- Rounding takes the nearest number to digits that are all there. -/
theorem roundsTo_roundWithAccuracy (sign : Sign) {m : ℕ} {e : ℤ}
    (he : e ≤ max (m.log2 + e - 23) (-149)) :
    RoundsTo (((sign.apply m : ℤ) * 2 ^ e : ℝ) : EReal)
      (roundWithAccuracy .binary32 sign m e .exact) := by
  have hstands : Stands (.ofMantissaAndAccuracy m .exact) (m : ℝ) := rfl
  rw [apply_mul_eq_signed]
  exact roundsTo_of_stands sign hstands he

theorem apply_mul_eq {m n : ℕ} {e t : ℤ} (h : (m : ℝ) * 2 ^ e = n * 2 ^ t) (sign : Sign) :
    ((sign.apply m : ℤ) : ℝ) * 2 ^ e = (sign.apply n : ℤ) * 2 ^ t := by
  rw [apply_mul_eq_signed, apply_mul_eq_signed, h]

theorem shiftLeft_mul_zpow (m k : ℕ) (e : ℤ) :
    ((m <<< k : ℕ) : ℝ) * 2 ^ (e - k) = m * 2 ^ e := by
  rw [Nat.shiftLeft_eq, zpow_sub₀ two_ne_zero, zpow_natCast]
  push_cast
  field_simp

theorem log2_shiftLeft {m : ℕ} (hm : 0 < m) (k : ℕ) : (m <<< k).log2 = m.log2 + k := by
  have hlow := Nat.log2_self_le hm.ne'
  have hhigh : m < 2 ^ (m.log2 + 1) := Nat.lt_log2_self
  have hpos := Nat.two_pow_pos k
  rw [Nat.shiftLeft_eq, Nat.log2_eq_iff (Nat.mul_pos hm hpos).ne', pow_add,
    show m.log2 + k + 1 = m.log2 + 1 + k by omega, pow_add 2 (m.log2 + 1) k]
  exact ⟨Nat.mul_le_mul_right _ hlow, Nat.mul_lt_mul_of_pos_right hhigh hpos⟩

/-- Rounding takes the nearest number; zeros are put behind the digits if there are not enough. -/
theorem roundsTo_round (sign : Sign) {m : ℕ} (hm : 0 < m) (e : ℤ) :
    RoundsTo (((sign.apply m : ℤ) * 2 ^ e : ℝ) : EReal)
      (UnpackedFloat.round .binary32 sign m e) := by
  rw [UnpackedFloat.round, targetExponent_eq]
  simp only [decreaseExponent]
  generalize hk : (e - max ((m.log2 : ℤ) + e - 23) (-149)).toNat = k
  have hround := roundsTo_roundWithAccuracy sign (m := m <<< k) (e := e - k) (by
    rw [log2_shiftLeft hm]
    omega)
  rwa [apply_mul_eq (shiftLeft_mul_zpow m k e) sign] at hround

theorem roundsTo_normalize (n e : ℤ) (zeroSign : Sign) :
    RoundsTo ((n * 2 ^ e : ℝ) : EReal) (UnpackedFloat.normalize .binary32 n e zeroSign) := by
  rw [UnpackedFloat.normalize]
  split
  · next hlt =>
    have hneg : n < 0 := Int.compare_eq_lt.mp hlt
    obtain ⟨m, hm⟩ := Int.eq_ofNat_of_zero_le (show 0 ≤ -n by omega)
    have hround := roundsTo_round .negative (m := m) (by omega) e
    rw [hm, Int.toNat_natCast]
    have heq : (Sign.negative.apply m : ℤ) = n := by
      simp only [Sign.apply]
      omega
    rwa [heq] at hround
  · next heq =>
    obtain rfl : n = 0 := Int.compare_eq_eq.mp heq
    refine ⟨trivial, 0, rfl, ?_⟩
    rw [Int.cast_zero, zero_mul]
    exact .real rounded_zero
  · next hgt =>
    have hpos : 0 < n := Int.compare_eq_gt.mp hgt
    obtain ⟨m, rfl⟩ := Int.eq_ofNat_of_zero_le hpos.le
    exact roundsTo_round .positive (by omega) e

/-! ### Operations -/

theorem RoundsTo.self {u : UnpackedFloat} (h : Canonical u) {v : EReal} (hv : valueOf u = some v) :
    RoundsTo v u := ⟨h, v, hv, near_self h hv⟩

theorem roundsTo_top : RoundsTo ⊤ (.infinity .positive) :=
  .self (u := .infinity .positive) trivial rfl

theorem roundsTo_bot : RoundsTo ⊥ (.infinity .negative) :=
  .self (u := .infinity .negative) trivial rfl

theorem roundsTo_zero (sign : Sign) : RoundsTo 0 (.zero sign) :=
  .self (u := .zero sign) trivial rfl

theorem apply_shiftLeft (sign : Sign) (m : ℕ) {e t : ℤ} (h : t ≤ e) :
    ((sign.apply (m <<< (e - t).toNat : ℕ) : ℤ) : ℝ) * 2 ^ t = (sign.apply m : ℤ) * 2 ^ e := by
  refine apply_mul_eq ?_ sign
  rw [← shiftLeft_mul_zpow m (e - t).toNat e]
  congr 2
  omega

/-- A sum is the exact one, rounded, unless it is of opposite infinities. -/
theorem roundsTo_add {u v : UnpackedFloat} (hu : Canonical u) (hv : Canonical v) {a b : EReal}
    (ha : valueOf u = some a) (hb : valueOf v = some b) (htop : ¬(a = ⊤ ∧ b = ⊥))
    (hbot : ¬(a = ⊥ ∧ b = ⊤)) : RoundsTo (a + b) (UnpackedFloat.add .binary32 u v) := by
  match u, v, ha, hb with
  | .infinity .positive, .infinity .positive, rfl, rfl => exact roundsTo_top
  | .infinity .negative, .infinity .negative, rfl, rfl => exact roundsTo_bot
  | .infinity .positive, .infinity .negative, rfl, rfl => exact absurd ⟨rfl, rfl⟩ htop
  | .infinity .negative, .infinity .positive, rfl, rfl => exact absurd ⟨rfl, rfl⟩ hbot
  | .infinity .positive, .zero _, rfl, rfl => exact roundsTo_top
  | .infinity .negative, .zero _, rfl, rfl => exact roundsTo_bot
  | .infinity .positive, .finite .., rfl, rfl => exact roundsTo_top
  | .infinity .negative, .finite .., rfl, rfl => exact roundsTo_bot
  | .zero _, .infinity .positive, rfl, rfl => exact roundsTo_top
  | .zero _, .infinity .negative, rfl, rfl => exact roundsTo_bot
  | .finite .., .infinity .positive, rfl, rfl => exact roundsTo_top
  | .finite .., .infinity .negative, rfl, rfl => exact roundsTo_bot
  | .zero _, .zero _, rfl, rfl =>
    rw [zero_add, UnpackedFloat.add]
    split <;> exact roundsTo_zero _
  | .zero _, .finite .., rfl, hb =>
    rw [zero_add]
    exact .self hv hb
  | .finite .., .zero _, ha, rfl =>
    rw [add_zero]
    exact .self hu ha
  | .finite s m e _, .finite s' m' e' _, rfl, rfl =>
    have hsum := roundsTo_normalize (s.apply (m <<< (e - min e e').toNat : ℕ) +
      s'.apply (m' <<< (e' - min e e').toNat : ℕ)) (min e e') .positive
    rw [Int.cast_add, add_mul, apply_shiftLeft s m (min_le_left e e'),
      apply_shiftLeft s' m' (min_le_right e e')] at hsum
    exact hsum

theorem apply_neg (sign : Sign) (n : ℤ) : (-sign).apply n = -sign.apply n := by
  cases sign
  · exact (neg_neg n).symm
  · rfl

theorem valueOf_neg (u : UnpackedFloat) : valueOf u.neg = (valueOf u).map (- ·) := by
  match u with
  | .infinity .positive => rfl
  | .infinity .negative => rfl
  | .notANumber => rfl
  | .zero _ => exact congrArg some (neg_zero : -(0 : EReal) = 0).symm
  | .finite sign m e _ =>
    show some ((((-sign).apply m : ℤ) * 2 ^ e : ℝ) : EReal) =
      some (-(((sign.apply m : ℤ) * 2 ^ e : ℝ) : EReal))
    rw [apply_neg, Int.cast_neg, neg_mul, EReal.coe_neg]

theorem canonical_neg {u : UnpackedFloat} (h : Canonical u) : Canonical u.neg := by
  cases u <;> exact h

/-- A difference is the sum with the opposite number. -/
theorem sub_eq_add_opposite (u v : UnpackedFloat) :
    UnpackedFloat.sub .binary32 u v = UnpackedFloat.add .binary32 u v.neg := by
  cases u <;> cases v <;> try rfl
  next sign m e _ sign' m' e' _ =>
    simp only [UnpackedFloat.sub, UnpackedFloat.add, UnpackedFloat.neg, decreaseExponent,
      apply_neg, Int.sub_eq_add_neg]

theorem apply_mul_apply (sign sign' : Sign) (m m' : ℕ) :
    (sign * sign').apply (m * m' : ℕ) = sign.apply m * sign'.apply m' := by
  cases sign <;> cases sign'
  · exact (Int.natCast_mul m m').trans (Int.neg_mul_neg m m').symm
  · exact (congrArg Neg.neg (Int.natCast_mul m m')).trans (Int.neg_mul m m').symm
  · exact (congrArg Neg.neg (Int.natCast_mul m m')).trans (Int.mul_neg m m').symm
  · exact Int.natCast_mul m m'

/-- A product of digits is the exact one, rounded. -/
theorem roundsTo_mul_finite {sign sign' : Sign} {m m' : ℕ} {e e' : ℤ} {hm : 0 < m} {hm' : 0 < m'}
    (h : Canonical (.finite sign m e hm)) (h' : Canonical (.finite sign' m' e' hm')) :
    RoundsTo (((sign.apply m : ℤ) * 2 ^ e * ((sign'.apply m' : ℤ) * 2 ^ e') : ℝ) : EReal)
      (UnpackedFloat.mul .binary32 (.finite sign m e hm) (.finite sign' m' e' hm')) := by
  obtain ⟨-, -, hfull⟩ := h
  obtain ⟨-, -, hfull'⟩ := h'
  have hpos := Nat.mul_pos hm hm'
  -- without all of its digits a number has the least exponent
  have henough : e + e' ≤ max (((m * m').log2 : ℤ) + (e + e') - 23) (-149) := by
    have hlong : 2 ^ 23 ≤ m * m' → 23 ≤ (m * m').log2 := (Nat.le_log2 hpos.ne').mpr
    rcases hfull with rfl | hfull
    · rcases hfull' with rfl | hfull'
      · omega
      · have hlog := hlong (hfull'.trans (Nat.le_mul_of_pos_left m' hm))
        omega
    · have hlog := hlong (hfull.trans (Nat.le_mul_of_pos_right m hm'))
      omega
  have hround := roundsTo_roundWithAccuracy (sign * sign') henough
  have hproduct : (((sign * sign').apply (m * m' : ℕ) : ℤ) : ℝ) * 2 ^ (e + e') =
      (sign.apply m : ℤ) * 2 ^ e * ((sign'.apply m' : ℤ) * 2 ^ e') := by
    rw [apply_mul_apply, Int.cast_mul, zpow_add₀ two_ne_zero, mul_mul_mul_comm]
  rw [hproduct] at hround
  exact hround

/-- A square is the exact one, rounded. -/
theorem roundsTo_mul_self {u : UnpackedFloat} (hu : Canonical u) {a : EReal}
    (ha : valueOf u = some a) : RoundsTo (a * a) (UnpackedFloat.mul .binary32 u u) := by
  match u, hu, ha with
  | .infinity .positive, _, rfl => exact roundsTo_top
  | .infinity .negative, _, rfl => exact roundsTo_top
  | .zero _, _, rfl =>
    rw [mul_zero]
    exact roundsTo_zero _
  | .finite .., hu, rfl => exact roundsTo_mul_finite hu hu

theorem mul_neg_neg (u : UnpackedFloat) :
    UnpackedFloat.mul .binary32 u.neg u.neg = UnpackedFloat.mul .binary32 u u := by
  match u with
  | .infinity .positive => rfl
  | .infinity .negative => rfl
  | .notANumber => rfl
  | .zero .positive => rfl
  | .zero .negative => rfl
  | .finite .positive .. => rfl
  | .finite .negative .. => rfl

end Single

end ForceDiagram
