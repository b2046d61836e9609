/-
ForceDiagram/Proofs/Quadtree/Nest.lean

The squares of a tree as a tree.

A `Nest` has the squares that a division of points makes, one inside the other,
and no slots: what the division decides is said once, in `nest`, and by
induction on the depth that is left or on the nest itself much follows without
an array in sight.  Where the squares of a nest lie in an array is the subject
of `Layout`.
-/
import Mathlib.Algebra.BigOperators.Ring.List
import Mathlib.Algebra.Order.BigOperators.Group.List
import Mathlib.Algebra.Order.Ring.Nat
import Mathlib.Data.List.Flatten
import Mathlib.Data.List.Perm.Basic
import ForceDiagram.Quadtree.Basic

namespace ForceDiagram

variable {F : Type} [Scalar F]

/-! ### Quarters -/

theorem Quarter.mem_all (q : Quarter) : q ∈ Quarter.all := by
  cases q <;> decide

/-! ### Nests -/

/-- Squares inside one another, each with the points in it. -/
inductive Nest (F : Type) where
  | empty
  | leaf (square : Square F) (bodies : List (Body F))
  | fork (square : Square F) (bodies : List (Body F)) (part : Quarter → Nest F)

namespace Nest

/-- How many squares there are. -/
def size : Nest F → Nat
  | .empty => 0
  | .leaf _ _ => 1
  | .fork _ _ part => 1 + (Quarter.all.map fun q => (part q).size).sum

def isEmpty : Nest F → Bool
  | .empty => true
  | _ => false

omit [Scalar F] in
theorem isEmpty_iff {n : Nest F} : n.isEmpty = true ↔ n = .empty := by
  cases n <;> simp [isEmpty]

end Nest

namespace Quadtree

/-! ### Division -/

/-- The points of a square divided at most `depth` times, as a nest. -/
def nest : (depth : Nat) → Square F → List (Body F) → Nest F
  | 0, square, bodies => if bodies.isEmpty then .empty else .leaf square bodies
  | depth + 1, square, bodies =>
    if bodies.isEmpty then .empty
    else if together bodies then .leaf square bodies
    else .fork square bodies fun q => nest depth (square.quarter q) (inQuarter square q bodies)

variable {depth : Nat} {square : Square F} {bodies : List (Body F)}

@[simp] theorem nest_nil (depth : Nat) (square : Square F) : nest depth square [] = .empty := by
  cases depth <;> rfl

theorem nest_of_together (h : bodies ≠ []) (htogether : together bodies = true ∨ depth = 0) :
    nest depth square bodies = .leaf square bodies := by
  have hpoints : ¬ bodies.isEmpty = true := by simpa using h
  cases depth with
  | zero => exact if_neg hpoints
  | succ below =>
    have htogether : together bodies = true := htogether.resolve_right (Nat.succ_ne_zero below)
    rw [nest, if_neg hpoints, if_pos htogether]

theorem nest_of_apart (h : bodies ≠ []) (hapart : together bodies = false) :
    nest (depth + 1) square bodies = .fork square bodies fun q =>
      nest depth (square.quarter q) (inQuarter square q bodies) := by
  have hpoints : ¬ bodies.isEmpty = true := by simpa using h
  rw [nest, if_neg hpoints, if_neg (by simp [hapart])]

/-- A square with points is held together, or divided into quarters with the
points that belong to them. -/
theorem nest_induction {motive : Nat → Square F → List (Body F) → Prop}
    (leaf : ∀ depth square bodies, bodies ≠ [] → (together bodies = true ∨ depth = 0) →
      motive depth square bodies)
    (fork : ∀ depth square bodies, bodies ≠ [] → together bodies = false →
      (∀ q, inQuarter square q bodies ≠ [] →
        motive depth (square.quarter q) (inQuarter square q bodies)) →
      motive (depth + 1) square bodies)
    (depth : Nat) (square : Square F) {bodies : List (Body F)} (h : bodies ≠ []) :
    motive depth square bodies := by
  induction depth generalizing square bodies with
  | zero => exact leaf 0 square bodies h (.inr rfl)
  | succ depth ih =>
    rcases htogether : together bodies with - | -
    · exact fork depth square bodies h htogether fun q hq => ih (square.quarter q) hq
    · exact leaf (depth + 1) square bodies h (.inl htogether)

theorem isEmpty_nest (depth : Nat) (square : Square F) (bodies : List (Body F)) :
    (nest depth square bodies).isEmpty = bodies.isEmpty := by
  rcases eq_or_ne bodies [] with rfl | h
  · rw [nest_nil]
    rfl
  · have hempty : bodies.isEmpty = false := by simpa using h
    rw [hempty]
    refine nest_induction
      (motive := fun depth square bodies => (nest depth square bodies).isEmpty = false)
      (fun depth square bodies h htogether => ?_)
      (fun depth square bodies h hapart _ => ?_) depth square h
    · rw [nest_of_together h htogether]
      rfl
    · rw [nest_of_apart h hapart]
      rfl

theorem mem_inQuarter {q : Quarter} {b : Body F} :
    b ∈ inQuarter square q bodies ↔ b ∈ bodies ∧ square.quarterOf b.pos = q := by
  rw [inQuarter, List.mem_filter, decide_eq_true_iff]

/-- Every point goes to one quarter. -/
theorem perm_flatMap_inQuarter (square : Square F) (bodies : List (Body F)) :
    (Quarter.all.flatMap fun q => inQuarter square q bodies).Perm bodies := by
  induction bodies with
  | nil =>
    have hnil : (Quarter.all.flatMap fun q => inQuarter square q ([] : List (Body F))) = [] :=
      rfl
    rw [hnil]
  | cons b rest ih =>
    -- the first point leads the part of its own quarter
    have hpart : ∀ q, inQuarter square q (b :: rest) =
        (if square.quarterOf b.pos = q then [b] else []) ++ inQuarter square q rest := by
      intro q
      rw [inQuarter, List.filter_cons]
      split <;> simp_all [inQuarter]
    have hfirst : (Quarter.all.flatMap fun q =>
        if square.quarterOf b.pos = q then [b] else []) = [b] := by
      cases square.quarterOf b.pos <;> rfl
    have hsplit : (Quarter.all.flatMap fun q => inQuarter square q (b :: rest)).Perm
        ((Quarter.all.flatMap fun q => if square.quarterOf b.pos = q then [b] else []) ++
          Quarter.all.flatMap fun q => inQuarter square q rest) := by
      simp only [hpart]
      exact (List.flatMap_append_perm _ _ _).symm
    rw [hfirst] at hsplit
    exact hsplit.trans (ih.cons b)

/-- A nest has at most as many squares as points at each depth. -/
theorem size_nest_le (depth : Nat) (square : Square F) (bodies : List (Body F)) :
    (nest depth square bodies).size ≤ (depth + 1) * bodies.length := by
  rcases eq_or_ne bodies [] with rfl | h
  · rw [nest_nil]
    exact Nat.zero_le _
  refine nest_induction (motive := fun depth square bodies =>
      (nest depth square bodies).size ≤ (depth + 1) * bodies.length)
    (fun depth square bodies h htogether => ?_)
    (fun depth square bodies h hapart ih => ?_) depth square h
  · rw [nest_of_together h htogether]
    exact Nat.mul_pos (Nat.succ_pos _) (List.length_pos_iff.mpr h)
  · have hparts : (Quarter.all.map fun q => (inQuarter square q bodies).length).sum =
        bodies.length := by
      rw [← List.length_flatMap]
      exact (perm_flatMap_inQuarter square bodies).length_eq
    have hsum : (Quarter.all.map fun q =>
          (nest depth (square.quarter q) (inQuarter square q bodies)).size).sum ≤
        (Quarter.all.map fun q => (depth + 1) * (inQuarter square q bodies).length).sum := by
      refine List.sum_le_sum fun q _ => ?_
      rcases eq_or_ne (inQuarter square q bodies) [] with hempty | hpoints
      · rw [hempty, nest_nil]
        exact Nat.zero_le _
      · exact ih q hpoints
    have hlength := List.length_pos_iff.mpr h
    rw [List.sum_map_mul_left, hparts] at hsum
    rw [nest_of_apart h hapart, Nest.size, Nat.succ_mul (depth + 1)]
    omega

end Quadtree

end ForceDiagram
