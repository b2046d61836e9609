/-
ForceDiagram/Proofs/Scalar/Order.lean

Comparison of numbers, and the least and greatest of several.

`Scalar.Preordered` says what a layout may take for granted of comparison: it is a total
preorder of the numbers, the value that is no number compares with nothing, and what
lies between two finite numbers is finite.  Of `lesser` and `greater` then follows that
they pick one of their arguments, a number where there is one (`Picks`), and so do
they one after the other: the least of several is one of them, and bounds every number
among them.

Numbers in single precision are ordered in this sense (`Single.preordered`): a number has a
rank, by its sign, its exponent and its digits in this order, and numbers compare as
their ranks do.
-/
import ForceDiagram.Scalar.Single
import Mathlib

namespace ForceDiagram

namespace Scalar

variable {F : Type} [Scalar F]

/-! ### Laws of comparison -/

/-- Numbers are totally preordered, and those between finite ones are finite. -/
structure Preordered (F : Type) [Scalar F] : Prop where
  le_total : ∀ {a b : F}, isNumber a = true → isNumber b = true → a ≤ b ∨ b ≤ a
  le_trans : ∀ {a b c : F}, a ≤ b → b ≤ c → a ≤ c
  /-- Nothing is less than the value that is no number, nor is it less than anything. -/
  lt_iff : ∀ {a b : F}, a < b ↔ isNumber a = true ∧ isNumber b = true ∧ ¬ b ≤ a
  isNumber_of_isFinite : ∀ {a : F}, isFinite a = true → isNumber a = true
  isFinite_of_between : ∀ {a x b : F}, isFinite a = true → isFinite b = true →
    a ≤ x → x ≤ b → isFinite x = true

/-- Comparison is a total preorder of the numbers, and two of them count as equal if neither is
the greater. -/
structure Ordered (F : Type) [Scalar F] : Prop where
  isNumber_of_le : ∀ {a b : F}, a ≤ b → isNumber a = true ∧ isNumber b = true
  le_total : ∀ {a b : F}, isNumber a = true → isNumber b = true → a ≤ b ∨ b ≤ a
  le_trans : ∀ {a b c : F}, a ≤ b → b ≤ c → a ≤ c
  beq_of_le : ∀ {a b : F}, a ≤ b → b ≤ a → (a == b) = true

/-! ### One of two -/

/-- The first of two numbers if it comes before, else the second one; a value that is no
number gives way to the other. -/
def firstBy (before : F → F → Prop) [∀ a b, Decidable (before a b)] (a b : F) : F :=
  if before a b then a else if isNumber b then b else a

/-- `Picks R pick`: of two values one is picked, a number if one of them is, and a number
that `R` relates to both as far as these are numbers. -/
structure Picks (R : F → F → Prop) (pick : F → F → F) : Prop where
  either : ∀ a b, pick a b = a ∨ pick a b = b
  isNumber : ∀ a b, Scalar.isNumber (pick a b) = (Scalar.isNumber a || Scalar.isNumber b)
  left : ∀ {a b}, Scalar.isNumber a = true → R (pick a b) a
  right : ∀ {a b}, Scalar.isNumber b = true → R (pick a b) b

theorem picks_firstBy {R before : F → F → Prop} [∀ a b, Decidable (before a b)]
    (htotal : ∀ {a b}, isNumber a = true → isNumber b = true → R a b ∨ R b a)
    (hbefore : ∀ {a b}, before a b ↔ isNumber a = true ∧ isNumber b = true ∧ ¬ R b a) :
    Picks R (firstBy before) := by
  have hrefl : ∀ {a}, isNumber a = true → R a a := fun ha => (htotal ha ha).elim id id
  refine ⟨fun a b => ?_, fun a b => ?_, fun {a b} ha => ?_, fun {a b} hb => ?_⟩
  · unfold firstBy
    split
    · exact .inl rfl
    · split
      · exact .inr rfl
      · exact .inl rfl
  · unfold firstBy
    split
    · next hab => rw [(hbefore.mp hab).1, Bool.true_or]
    · split
      · next hb => rw [hb, Bool.or_true]
      · next hb => rw [Bool.eq_false_of_not_eq_true hb, Bool.or_false]
  · unfold firstBy
    split
    · exact hrefl ha
    · next hab =>
      split
      · next hb => exact not_not.mp fun hba => hab (hbefore.mpr ⟨ha, hb, hba⟩)
      · exact hrefl ha
  · unfold firstBy
    split
    · next hab =>
      obtain ⟨ha, -, hba⟩ := hbefore.mp hab
      exact (htotal ha hb).resolve_right hba
    · exact hrefl hb

theorem Preordered.picks_lesser (h : Preordered F) : Picks (· ≤ ·) (lesser : F → F → F) :=
  picks_firstBy h.le_total h.lt_iff

theorem Preordered.picks_greater (h : Preordered F) :
    Picks (fun a b => b ≤ a) (greater : F → F → F) := by
  refine picks_firstBy (fun ha hb => h.le_total hb ha) fun {a b} => ?_
  rw [h.lt_iff]
  exact and_left_comm

/-! ### One of several -/

section

variable {R : F → F → Prop} {pick : F → F → F}

theorem Picks.foldl_mem (h : Picks R pick) (a : F) (as : List F) :
    as.foldl pick a ∈ a :: as := by
  induction as generalizing a with
  | nil => exact List.mem_singleton_self a
  | cons b as ih =>
    rcases List.mem_cons.mp (ih (pick a b)) with hpick | hrest
    · rw [List.foldl_cons, hpick]
      obtain ha | hb := h.either a b
      · rw [ha]
        exact List.mem_cons_self
      · rw [hb]
        exact List.mem_cons_of_mem _ List.mem_cons_self
    · exact List.mem_cons_of_mem _ (List.mem_cons_of_mem _ hrest)

theorem Picks.isNumber_foldl (h : Picks R pick) (a : F) (as : List F) :
    Scalar.isNumber (as.foldl pick a) = (a :: as).any Scalar.isNumber := by
  induction as generalizing a with
  | nil => exact (Bool.or_false _).symm
  | cons b as ih =>
    rw [List.foldl_cons, ih, List.any_cons, h.isNumber, List.any_cons, List.any_cons,
      Bool.or_assoc]

/-- What is picked of several is related to every number among them. -/
theorem Picks.foldl_rel (h : Picks R pick) (htrans : ∀ {a b c}, R a b → R b c → R a c) (a : F)
    (as : List F) : ∀ x ∈ a :: as, Scalar.isNumber x = true → R (as.foldl pick a) x := by
  induction as generalizing a with
  | nil =>
    intro x hx hnumber
    obtain rfl := List.mem_singleton.mp hx
    have hself := h.left (b := x) hnumber
    rwa [or_self_iff.mp (h.either x x)] at hself
  | cons b as ih =>
    intro x hx hnumber
    -- what is picked of the first two comes before both
    have hfirst : Scalar.isNumber (pick a b) = true → R (as.foldl pick (pick a b)) (pick a b) :=
      ih (pick a b) _ List.mem_cons_self
    rw [h.isNumber] at hfirst
    rcases List.mem_cons.mp hx with rfl | hx
    · exact htrans (hfirst (by rw [hnumber, Bool.true_or])) (h.left hnumber)
    · rcases List.mem_cons.mp hx with rfl | hx
      · exact htrans (hfirst (by rw [hnumber, Bool.or_true])) (h.right hnumber)
      · exact ih (pick a b) x (List.mem_cons_of_mem _ hx) hnumber

end

/-- The least and the greatest of several values bound every number among them. -/
theorem Preordered.extremes_between (h : Preordered F) {a x : F} {as : List F} (hx : x ∈ a :: as)
    (hnumber : isNumber x = true) : as.foldl lesser a ≤ x ∧ x ≤ as.foldl greater a :=
  ⟨h.picks_lesser.foldl_rel h.le_trans a as x hx hnumber,
    h.picks_greater.foldl_rel (fun hab hbc => h.le_trans hbc hab) a as x hx hnumber⟩

/-- There is a number among the values, and every number among them is finite. -/
def Spanned (as : List F) : Prop :=
  (∃ x ∈ as, isNumber x = true) ∧ ∀ x ∈ as, isNumber x = true → isFinite x = true

theorem spanned_map {α : Type} (f : α → F) (as : List α) :
    Spanned (as.map f) ↔ (∃ a ∈ as, isNumber (f a) = true) ∧
      ∀ a ∈ as, isNumber (f a) = true → isFinite (f a) = true := by
  simp [Spanned]

/-- The least and the greatest of several values are finite if there is a number among
these and every number is finite: a value that is no number is passed over. -/
theorem Preordered.isFinite_extremes_iff (h : Preordered F) (a : F) (as : List F) :
    (isFinite (as.foldl lesser a) = true ∧ isFinite (as.foldl greater a) = true) ↔
      Spanned (a :: as) := by
  have hleast := h.picks_lesser.foldl_mem a as
  have hgreatest := h.picks_greater.foldl_mem a as
  constructor
  · rintro ⟨hlow, hhigh⟩
    refine ⟨⟨_, hleast, h.isNumber_of_isFinite hlow⟩, fun x hx hnumber => ?_⟩
    obtain ⟨hle, hge⟩ := h.extremes_between hx hnumber
    exact h.isFinite_of_between hlow hhigh hle hge
  · rintro ⟨⟨x, hx, hnumber⟩, hfinite⟩
    have hany : (a :: as).any isNumber = true := List.any_eq_true.mpr ⟨x, hx, hnumber⟩
    refine ⟨hfinite _ hleast ?_, hfinite _ hgreatest ?_⟩
    · rw [h.picks_lesser.isNumber_foldl, hany]
    · rw [h.picks_greater.isNumber_foldl, hany]

end Scalar

/-! ### Single precision -/

namespace Single

open Float.Model Float.Model.UnpackedFloat

/-- Where a number stands among the others: by its sign, then by its exponent, then by
its digits, and below zero the other way round. -/
def rankOf : UnpackedFloat → Option (ℤ ×ₗ ℤ ×ₗ ℤ)
  | .infinity .negative => some (toLex (-2, toLex (0, 0)))
  | .finite .negative mantissa exponent _ => some (toLex (-1, toLex (-exponent, -mantissa)))
  | .zero _ => some (toLex (0, toLex (0, 0)))
  | .finite .positive mantissa exponent _ => some (toLex (1, toLex (exponent, mantissa)))
  | .infinity .positive => some (toLex (2, toLex (0, 0)))
  | .notANumber => none

theorem compare_natCast (m n : ℕ) : compare (m : ℤ) (n : ℤ) = compare m n := by
  rw [Int.compare_eq_ite_lt, Nat.compare_eq_ite_lt]
  norm_cast

theorem compare_neg (a b : ℤ) : compare (-a) (-b) = (compare a b).swap := by
  rw [Int.compare_swap, Int.compare_eq_ite_lt, Int.compare_eq_ite_lt]
  simp only [Int.neg_lt_neg_iff]

/-- Numbers compare as their ranks do. -/
theorem compare_eq_compare_rankOf (u v : UnpackedFloat) :
    UnpackedFloat.compare u v = (rankOf u).bind fun a => (rankOf v).map (compare a) := by
  have hlex : ∀ c e m e' m' : ℤ,
      compare (toLex (c, toLex (e, m))) (toLex (c, toLex (e', m'))) =
        (compare e e').then (compare m m') := by
    intro c e m e' m'
    show (compare c c).then ((compare e e').then (compare m m')) = _
    rw [Std.compare_self, Ordering.then]
  rcases u with (_ | _) | - | _ | ⟨(_ | _), m, e, _⟩ <;>
    rcases v with (_ | _) | - | _ | ⟨(_ | _), m', e', _⟩ <;>
    simp only [rankOf, UnpackedFloat.compare, Option.bind_some, Option.bind_none,
      Option.map_some, Option.map_none, hlex, compare_neg, compare_natCast,
      Ordering.swap_then] <;> rfl

/-- The rank of a number; the value that is no number has none. -/
def rank? (x : Float32) : Option (ℤ ×ₗ ℤ ×ₗ ℤ) := rankOf x.toModel.unpack

theorem lt_iff_rank? {x y : Float32} :
    x < y ↔ ∃ a b, rank? x = some a ∧ rank? y = some b ∧ a < b := by
  show decide (UnpackedFloat.lt x.toModel.unpack y.toModel.unpack = true) = true ↔ _
  rw [decide_eq_true_iff, UnpackedFloat.lt, compare_eq_compare_rankOf, rank?, rank?]
  rcases rankOf x.toModel.unpack with - | a
  · simp
  · rcases rankOf y.toModel.unpack with - | b
    · simp
    · simp [compare_lt_iff_lt]

theorem le_iff_rank? {x y : Float32} :
    x ≤ y ↔ ∃ a b, rank? x = some a ∧ rank? y = some b ∧ a ≤ b := by
  show decide (UnpackedFloat.le x.toModel.unpack y.toModel.unpack = true) = true ↔ _
  rw [decide_eq_true_iff, UnpackedFloat.le, compare_eq_compare_rankOf, rank?, rank?]
  rcases rankOf x.toModel.unpack with - | a
  · simp
  · rcases rankOf y.toModel.unpack with - | b
    · simp
    · simp [Ordering.isLE_iff_ne_gt, compare_le_iff_le]

theorem beq_iff_rank? {x y : Float32} :
    (x == y) = true ↔ ∃ a, rank? x = some a ∧ rank? y = some a := by
  show UnpackedFloat.beq x.toModel.unpack y.toModel.unpack = true ↔ _
  rw [UnpackedFloat.beq, compare_eq_compare_rankOf, rank?, rank?]
  rcases rankOf x.toModel.unpack with - | a
  · simp
  · rcases rankOf y.toModel.unpack with - | b
    · simp
    · simp only [Option.bind_some, Option.map_some, Option.some.injEq, exists_eq_left', beq_iff_eq,
        compare_eq_iff_eq]
      exact eq_comm

theorem beq_iff_le {x y : Float32} : (x == y) = true ↔ x ≤ y ∧ y ≤ x := by
  rw [beq_iff_rank?, le_iff_rank?, le_iff_rank?]
  constructor
  · rintro ⟨a, ha, hb⟩
    exact ⟨⟨a, a, ha, hb, le_rfl⟩, a, a, hb, ha, le_rfl⟩
  · rintro ⟨⟨a, b, ha, hb, hab⟩, b', a', hb', ha', hba⟩
    obtain rfl : a = a' := Option.some.inj (ha.symm.trans ha')
    obtain rfl : b = b' := Option.some.inj (hb.symm.trans hb')
    obtain rfl := le_antisymm hab hba
    exact ⟨_, ha, hb⟩

theorem isNumber_eq (x : Float32) : Scalar.isNumber x = (rank? x).isSome := by
  show UnpackedFloat.beq x.toModel.unpack x.toModel.unpack = _
  rw [UnpackedFloat.beq, compare_eq_compare_rankOf, rank?]
  rcases rankOf x.toModel.unpack with - | a
  · rfl
  · simp

/-- The finite numbers are those between the infinite ones. -/
theorem isFinite_iff_rank? {x : Float32} :
    Scalar.isFinite x = true ↔ ∃ a, rank? x = some a ∧
      toLex (-2, toLex (0, 0)) < a ∧ a < toLex (2, toLex (0, 0)) := by
  show UnpackedFloat.isFinite x.toModel.unpack = true ↔ _
  rw [rank?]
  rcases x.toModel.unpack with (_ | _) | - | _ | ⟨(_ | _), m, e, _⟩ <;>
    simp [UnpackedFloat.isFinite, rankOf, Prod.Lex.toLex_lt_toLex]

/-- **Numbers in single precision are ordered.** -/
theorem preordered : Scalar.Preordered Float32 where
  le_total := by
    intro x y hx hy
    rw [isNumber_eq, Option.isSome_iff_exists] at hx hy
    obtain ⟨a, ha⟩ := hx
    obtain ⟨b, hb⟩ := hy
    exact (le_total a b).imp (fun hab => le_iff_rank?.mpr ⟨a, b, ha, hb, hab⟩)
      fun hba => le_iff_rank?.mpr ⟨b, a, hb, ha, hba⟩
  le_trans := by
    intro x y z hxy hyz
    obtain ⟨a, b, ha, hb, hab⟩ := le_iff_rank?.mp hxy
    obtain ⟨b', c, hb', hc, hbc⟩ := le_iff_rank?.mp hyz
    obtain rfl : b = b' := Option.some.inj (hb.symm.trans hb')
    exact le_iff_rank?.mpr ⟨a, c, ha, hc, hab.trans hbc⟩
  lt_iff := by
    intro x y
    rw [lt_iff_rank?, le_iff_rank?, isNumber_eq, isNumber_eq]
    rcases rank? x with - | a
    · simp
    · rcases rank? y with - | b <;> simp
  isNumber_of_isFinite := by
    intro x hx
    obtain ⟨a, ha, -⟩ := isFinite_iff_rank?.mp hx
    rw [isNumber_eq, ha, Option.isSome_some]
  isFinite_of_between := by
    intro x z y hx hy hxz hzy
    obtain ⟨a, ha, hlow, -⟩ := isFinite_iff_rank?.mp hx
    obtain ⟨b, hb, -, hhigh⟩ := isFinite_iff_rank?.mp hy
    obtain ⟨a', c, ha', hc, hac⟩ := le_iff_rank?.mp hxz
    obtain ⟨c', b', hc', hb', hcb⟩ := le_iff_rank?.mp hzy
    obtain rfl : a = a' := Option.some.inj (ha.symm.trans ha')
    obtain rfl : b = b' := Option.some.inj (hb.symm.trans hb')
    obtain rfl : c = c' := Option.some.inj (hc.symm.trans hc')
    exact isFinite_iff_rank?.mpr ⟨c, hc, hlow.trans_le hac, hcb.trans_lt hhigh⟩

/-- Equal numbers are those of one rank. -/
theorem ordered : Scalar.Ordered Float32 where
  isNumber_of_le := by
    intro x y hxy
    obtain ⟨a, b, ha, hb, -⟩ := le_iff_rank?.mp hxy
    rw [isNumber_eq, isNumber_eq, ha, hb]
    exact ⟨rfl, rfl⟩
  le_total := preordered.le_total
  le_trans := preordered.le_trans
  beq_of_le := fun hxy hyx => beq_iff_le.mpr ⟨hxy, hyx⟩

end Single

end ForceDiagram
