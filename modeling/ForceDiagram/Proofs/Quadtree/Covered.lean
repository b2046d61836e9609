/-
ForceDiagram/Proofs/Quadtree/Covered.lean

Which points have a tree.

There is a tree where there is a square, and a square where the least and the greatest
coordinates are finite.  These are found along each axis on its own, and a coordinate
that is no number gives way to any other (`Scalar.Spanned`).  So an infinite coordinate
leaves points without a tree wherever it stands, but one that is no number does so only
if no point has a number there: next to one that has, the point goes into the tree.

Where points have no tree, collisions and charge do nothing at all.

Main result: `ofPoints?_by_coordinates`.
-/
import ForceDiagram.Force.Charge
import ForceDiagram.Force.Collision
import ForceDiagram.Proofs.Scalar.Order

namespace ForceDiagram

variable {F : Type} [Scalar F]

open Scalar

/-! ### Bounds, axis by axis -/

theorem Square.bounds_eq (first : Vec F) (rest : List (Vec F)) :
    bounds first rest =
      (⟨(rest.map (·.x)).foldl lesser first.x, (rest.map (·.y)).foldl lesser first.y⟩,
        ⟨(rest.map (·.x)).foldl greater first.x, (rest.map (·.y)).foldl greater first.y⟩) := by
  have hfrom : ∀ b : Vec F × Vec F,
      rest.foldl (fun b p => (b.1.lesser p, b.2.greater p)) b =
        (⟨(rest.map (·.x)).foldl lesser b.1.x, (rest.map (·.y)).foldl lesser b.1.y⟩,
          ⟨(rest.map (·.x)).foldl greater b.2.x, (rest.map (·.y)).foldl greater b.2.y⟩) := by
    induction rest with
    | nil => intro b; rfl
    | cons p rest ih => intro b; exact ih _
  exact hfrom (first, first)

/-- There is a square around points that have numbers along both axes, finite ones. -/
theorem Square.isSome_cover?_iff (h : Preordered F) (points : List (Vec F)) :
    (cover? points).isSome = true ↔
      Spanned (points.map (·.x)) ∧ Spanned (points.map (·.y)) := by
  rcases points with - | ⟨first, rest⟩
  · simp [cover?, Spanned]
  · rw [List.map_cons, List.map_cons, ← h.isFinite_extremes_iff, ← h.isFinite_extremes_iff,
      cover?, bounds_eq]
    simp only [Vec.isFinite, Bool.and_eq_true]
    split
    · next hfinite => exact iff_of_true rfl (and_and_and_comm.mp hfinite)
    · next hfinite =>
      exact iff_of_false Bool.false_ne_true fun hspanned => hfinite (and_and_and_comm.mp hspanned)

theorem Quadtree.isSome_ofPoints?_iff (h : Preordered F) (points : List (Vec F)) :
    (ofPoints? points).isSome = true ↔
      Spanned (points.map (·.x)) ∧ Spanned (points.map (·.y)) := by
  rw [ofPoints?, Option.isSome_map]
  exact Square.isSome_cover?_iff h points

/-! ### Forces without a tree -/

theorem Collision.act_of_none (c : Collision F) {b : Bodies F}
    (h : Quadtree.ofPoints? (b.nodes.toList.map Node.ahead) = none) : c.act b = b := by
  have hround : c.round? b = none := by rw [round?, h, Option.map_none]
  unfold act
  cases c.rounds with
  | zero => rfl
  | succ rounds => rw [repeated, hround]

theorem Charge.act_of_none (c : Charge F) {b : Bodies F}
    (h : Quadtree.ofPoints? (b.nodes.toList.map (·.pos)) = none) : c.act b = b := by
  rw [act, h]

namespace Quadtree

/-- **Which points have a tree.**  Points have one if and only if each axis has a number
among its coordinates and no infinite one.  Where all coordinates are numbers, these are
the lists with a point in which every coordinate is finite.  And where the places of the
nodes have no tree, or the places they are about to be at, charge and collisions leave
every node and the generator as they are. -/
theorem ofPoints?_by_coordinates (points : List (Vec Float32)) :
    ((ofPoints? points).isSome = true ↔
      (∃ p ∈ points, isNumber p.x = true) ∧ (∃ p ∈ points, isNumber p.y = true) ∧
      ∀ p ∈ points, (isNumber p.x = true → isFinite p.x = true) ∧
        (isNumber p.y = true → isFinite p.y = true)) ∧
    ((∀ p ∈ points, isNumber p.x = true ∧ isNumber p.y = true) →
      ((ofPoints? points).isSome = true ↔
        points ≠ [] ∧ ∀ p ∈ points, isFinite p.x = true ∧ isFinite p.y = true)) ∧
    (ofPoints? points = none →
      (∀ (c : Collision Float32) (b : Bodies Float32),
        b.nodes.toList.map Node.ahead = points → c.act b = b) ∧
      ∀ (c : Charge Float32) (b : Bodies Float32),
        b.nodes.toList.map (·.pos) = points → c.act b = b) := by
  have htree : (ofPoints? points).isSome = true ↔
      (∃ p ∈ points, isNumber p.x = true) ∧ (∃ p ∈ points, isNumber p.y = true) ∧
      ∀ p ∈ points, (isNumber p.x = true → isFinite p.x = true) ∧
        (isNumber p.y = true → isFinite p.y = true) := by
    rw [isSome_ofPoints?_iff Single.preordered, spanned_map, spanned_map, forall₂_and]
    tauto
  refine ⟨htree, fun hnumbers => ?_, fun hnone => ⟨fun c b hb => ?_, fun c b hb => ?_⟩⟩
  · rw [htree]
    constructor
    · rintro ⟨⟨p, hp, -⟩, -, hfinite⟩
      refine ⟨List.ne_nil_of_mem hp, fun q hq => ?_⟩
      exact ⟨(hfinite q hq).1 (hnumbers q hq).1, (hfinite q hq).2 (hnumbers q hq).2⟩
    · rintro ⟨hne, hfinite⟩
      obtain ⟨p, hp⟩ := List.exists_mem_of_ne_nil points hne
      exact ⟨⟨p, hp, (hnumbers p hp).1⟩, ⟨p, hp, (hnumbers p hp).2⟩,
        fun q hq => ⟨fun _ => (hfinite q hq).1, fun _ => (hfinite q hq).2⟩⟩
  · exact c.act_of_none (hb ▸ hnone)
  · exact c.act_of_none (hb ▸ hnone)

/-- An infinite coordinate among finite ones, and nodes at these places. -/
theorem ofPoints?_by_coordinates_of_infinite :
    let points : List (Vec Float32) := [⟨1, 2⟩, ⟨3, 1 / 0⟩, ⟨5, 6⟩]
    let b : Bodies Float32 :=
      ⟨(points.map fun p => ⟨"a", p, ⟨0, 0⟩, none⟩).toArray, .initial⟩
    (∀ p ∈ points, isNumber p.x = true ∧ isNumber p.y = true) ∧
      ofPoints? points = none ∧ b.nodes.toList.map (·.pos) = points ∧
      ∀ c : Charge Float32, c.act b = b := by
  intro points b
  have hnumbers : ∀ p ∈ points, isNumber p.x = true ∧ isNumber p.y = true := by decide +kernel
  have hinfinite : ¬ ∀ p ∈ points, isFinite p.x = true ∧ isFinite p.y = true := by
    decide +kernel
  obtain ⟨-, htree, hrest⟩ := ofPoints?_by_coordinates points
  have hnone : ofPoints? points = none := by
    rw [← Option.not_isSome_iff_eq_none, htree hnumbers]
    exact fun h => hinfinite h.2
  exact ⟨hnumbers, hnone, rfl, fun c => (hrest hnone).2 c b rfl⟩

/-- A coordinate that is no number does not keep the other point from having a tree, and
charge spreads it. -/
theorem isSome_ofPoints?_beside_no_number :
    let points : List (Vec Float32) := [⟨0, 0⟩, ⟨0 / 0, 0⟩]
    let b : Bodies Float32 :=
      ⟨(points.map fun p => ⟨"a", p, ⟨0, 0⟩, none⟩).toArray, .initial⟩
    let c : Charge Float32 := ⟨-200, 0.81, 1, 1⟩
    (∃ p ∈ points, isFinite p.x = false) ∧ (ofPoints? points).isSome = true ∧
      ∃ n ∈ (c.act b).nodes, isFinite n.pos.x = true ∧ isNumber n.velocity.x = false := by
  decide +kernel

end Quadtree

end ForceDiagram
