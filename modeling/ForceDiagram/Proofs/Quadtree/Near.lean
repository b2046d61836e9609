/-
ForceDiagram/Proofs/Quadtree/Near.lean

What a search for near points finds.

A search is a walk that stops at the squares that are too far away, and takes what is held
in the others that it meets.  So it finds points in the order in which a walk through all
squares comes by them, each once, and a point is left out by one thing only: a square that
is too far away and holds the point, directly or further inside (`Lies.mem_kept_iff`).

Main result: `near_of_points`.
-/
import ForceDiagram.Proofs.Quadtree.Pruned

namespace ForceDiagram

variable {F : Type} [Scalar F]

namespace Quadtree

variable {t : Quadtree F} {i j depth : Nat} {square : Square F} {bodies : List (Body F)}
  {points : List (Vec F)} {b : Body F} {stop : Cell F → Bool}

/-! ### What a walk takes along -/

/-- What is taken from a slot: nothing if the walk stops there, or else the points held
directly. -/
def keptAt (t : Quadtree F) (stop : Cell F → Bool) : Nat → List (Body F) :=
  t.readAt fun slot => if stop slot.cell then [] else slot.bodies

omit [Scalar F] in
theorem keptAt_sublist (t : Quadtree F) (stop : Cell F → Bool) (i : Nat) :
    (t.keptAt stop i).Sublist (t.bodiesAt i) := by
  rw [keptAt, bodiesAt, readAt, readAt]
  rcases t.slots[i]? with - | slot
  · exact .refl _
  · show (if stop slot.cell then [] else slot.bodies).Sublist slot.bodies
    split
    · exact List.nil_sublist _
    · exact .refl _

omit [Scalar F] in
/-- Walks with several slots on the stack go through them one after the other. -/
theorem follow_append (t : Quadtree F) (stop : Cell F → Bool) (stack stack' : List Nat) :
    t.follow stop (stack ++ stack') = t.follow stop stack ++ t.follow stop stack' := by
  induction stack using follow.induct t stop with
  | case1 => rw [follow_nil, List.nil_append, List.nil_append]
  | case2 i stack hnone ih => rw [List.cons_append, follow_of_none hnone, follow_of_none hnone, ih]
  | case3 i stack slot hslot ih =>
    simp only [dite_eq_ite] at ih
    rw [List.cons_append, follow_cons hslot, follow_cons hslot, List.cons_append, ← ih]
    split
    · rfl
    · rw [List.append_assoc]

omit [Scalar F] in
theorem follow_eq_flatMap (t : Quadtree F) (stop : Cell F → Bool) (stack : List Nat) :
    t.follow stop stack = stack.flatMap fun i => t.follow stop [i] := by
  induction stack with
  | nil => exact follow_nil t stop
  | cons i stack ih => rw [List.flatMap_cons, ← ih, ← follow_append, List.singleton_append]

/-- What is taken along from the nest of some points is among these. -/
theorem Lies.holds_of_kept (h : t.Lies depth square bodies i)
    (hb : b ∈ (t.follow stop [i]).flatMap (t.keptAt stop)) : t.Holds i b := by
  obtain ⟨j, hj, hbj⟩ := List.mem_flatMap.mp hb
  rw [h.follow_eq] at hj
  refine h.mem_within_iff.mp (List.mem_flatMap.mpr ⟨j, ?_, (t.keptAt_sublist stop j).subset hbj⟩)
  rw [h.follow_eq]
  exact (Nest.order_sublist stop _ i).subset hj

/-! ### What keeps a point from being taken along -/

/-- No square between the slot `i` and the point stops the walk, these two included. -/
def Clear (t : Quadtree F) (stop : Cell F → Bool) (b : Body F) (i : Nat) : Prop :=
  ∀ down j slot, t.Descends i down j → t.slots[j]? = some slot → t.Holds j b →
    stop slot.cell = false

omit [Scalar F] in
theorem Holds.of_descends {down : Nat} (hdescends : t.Descends i down j) (h : t.Holds j b) :
    t.Holds i b := by
  induction hdescends with
  | here => exact h
  | step _ hchild ih =>
    obtain ⟨depth, k, slot, hk, hslot, hb⟩ := h
    exact ih ⟨depth + 1, k, slot, hk.head hchild, hslot, hb⟩

omit [Scalar F] in
/-- A square inside another one is this one, or lies inside one of its quarters. -/
theorem Descends.here_or_child {down : Nat} (h : t.Descends i down j) :
    j = i ∨ ∃ q c down', t.Child i q c ∧ t.Descends c down' j := by
  induction h with
  | here => exact .inl rfl
  | @step down k q j _ hchild ih =>
    rcases ih with rfl | ⟨p, c, down', hc, hdescends⟩
    · exact .inr ⟨q, j, 0, hchild, .here⟩
    · exact .inr ⟨p, c, down' + 1, hc, hdescends.step hchild⟩

omit [Scalar F] in
/-- The way to a point is clear if it is clear from the quarter that holds the point. -/
theorem clear_iff {slot : Slot F} (hslot : t.slots[i]? = some slot) (hb : t.Holds i b) :
    t.Clear stop b i ↔ stop slot.cell = false ∧
      ∀ q c, slot.children q = some c → t.Holds c b → t.Clear stop b c := by
  constructor
  · intro h
    refine ⟨h 0 i slot .here hslot hb, fun q c hc _ down j s hdescends hs => ?_⟩
    exact h (down + 1) j s (hdescends.head ⟨slot, hslot, hc⟩) hs
  · rintro ⟨hstop, hclear⟩ down j s hdescends hs hj
    rcases hdescends.here_or_child with rfl | ⟨q, c, down', ⟨parent, hparent, hc⟩, hinside⟩
    · rwa [← Option.some.inj (hslot.symm.trans hs)]
    · obtain rfl := Option.some.inj (hslot.symm.trans hparent)
      exact hclear q c hc (hj.of_descends hinside) down' j s hinside hs hj

/-- A point of a nest is taken along if and only if the way to it is clear. -/
theorem Lies.mem_kept_iff (h : t.Lies depth square bodies i) (hb : b ∈ bodies) :
    b ∈ (t.follow stop [i]).flatMap (t.keptAt stop) ↔ t.Clear stop b i := by
  induction depth using Nat.strong_induction_on generalizing square bodies i with
  | _ depth ih =>
    have hheld : t.Holds i b := h.holds_iff.mpr hb
    obtain ⟨hslot, -⟩ | ⟨below, children, rfl, hslot, hpoints, hlies⟩ := h.cases
    · -- a leaf has the point, and no quarters
      have hfollow : t.follow stop [i] = [i] := by
        rw [follow_cons hslot]
        split <;> exact congrArg _ (follow_nil t stop)
      rw [hfollow, clear_iff hslot hheld, List.flatMap_singleton, keptAt, readAt_of_some hslot]
      rcases hstop : stop (Slot.leaf square bodies).cell with - | -
      · exact iff_of_true hb ⟨rfl, nofun⟩
      · exact iff_of_false List.not_mem_nil fun h => nomatch h.1
    · -- a square that is divided leaves the point to one of its quarters
      have hnone : t.keptAt stop i = [] := by
        rw [keptAt, readAt_of_some hslot]
        exact ite_self []
      rw [clear_iff hslot hheld, follow_cons hslot, List.flatMap_cons, hnone, List.nil_append]
      rcases hstop : stop (Cell.ofBodies square bodies) with - | -
      · rw [if_neg Bool.false_ne_true, List.append_nil, follow_eq_flatMap, List.flatMap_assoc,
          List.mem_flatMap]
        have hquarter : ∀ {q c}, children q = some c → t.Holds c b →
            q = square.quarterOf b.pos ∧ b ∈ inQuarter square q bodies := fun {q c} hc hheld => by
          have hmem := (hlies q c hc).holds_iff.mp hheld
          exact ⟨(mem_inQuarter.mp hmem).2.symm, hmem⟩
        constructor
        · rintro ⟨c, hc, hkept⟩
          refine ⟨rfl, fun q c' hc' hheld' => ?_⟩
          obtain ⟨p, -, hp⟩ := List.mem_filterMap.mp hc
          have hheldp := (hlies p c hp).holds_of_kept hkept
          obtain rfl : p = q := (hquarter hp hheldp).1.trans (hquarter hc' hheld').1.symm
          obtain rfl := Option.some.inj (hp.symm.trans hc')
          exact (ih below below.lt_succ_self (hlies p c hp) (hquarter hp hheldp).2).mp hkept
        · rintro ⟨-, hclear⟩
          have hmem : b ∈ inQuarter square (square.quarterOf b.pos) bodies :=
            mem_inQuarter.mpr ⟨hb, rfl⟩
          obtain ⟨c, hc⟩ := hpoints _ (List.ne_nil_of_mem hmem)
          refine ⟨c, List.mem_filterMap.mpr ⟨_, Quarter.mem_all _, hc⟩, ?_⟩
          exact (ih below below.lt_succ_self (hlies _ c hc) hmem).mpr
            (hclear _ c hc ((hlies _ c hc).holds_iff.mpr hmem))
      · rw [if_pos rfl, follow_nil]
        exact iff_of_false List.not_mem_nil fun h => nomatch h.1

/-! ### Searching all points -/

/-- Whether a square is further than `reach` from a point. -/
def tooFar (p : Vec F) (reach : F) (cell : Cell F) : Bool :=
  reach * reach < cell.square.distanceSq p

theorem near_eq_kept (t : Quadtree F) (p : Vec F) (reach : F) :
    t.near p reach = (t.order (tooFar p reach)).flatMap (t.keptAt (tooFar p reach)) := by
  have hkept : ∀ visits : List (Visit F),
      (visits.filter fun v => !tooFar p reach v.cell).flatMap (·.bodies) =
        visits.flatMap fun v => if tooFar p reach v.cell then [] else v.bodies := by
    intro visits
    induction visits with
    | nil => rfl
    | cons v visits ih =>
      rw [List.filter_cons, List.flatMap_cons, ← ih]
      cases tooFar p reach v.cell <;> rfl
  exact (hkept _).trans (flatMap_visits t _ _)

omit [Scalar F] in
theorem flatMap_bodies_visits (t : Quadtree F) :
    t.visits.flatMap (·.bodies) = (t.order fun _ => false).flatMap t.bodiesAt :=
  flatMap_visits t _ _

/-- A walk through all squares comes by every point once. -/
theorem Filled.perm_visits (h : Filled points square t) :
    (t.visits.flatMap (·.bodies)).Perm (bodiesOf points) := by
  rw [flatMap_bodies_visits, h.order, h.range_size]
  exact perm_bodiesAt h.lies

/-- A search finds points in the order of the walk through all squares. -/
theorem Filled.near_sublist (h : Filled points square t) (p : Vec F) (reach : F) :
    (t.near p reach).Sublist (t.visits.flatMap (·.bodies)) := by
  rw [near_eq_kept, flatMap_bodies_visits]
  exact (List.Sublist.flatMap_right _ fun i _ => t.keptAt_sublist _ i).trans
    ((h.order_sublist _).flatMap _)

theorem Filled.mem_bodiesOf_of_near (h : Filled points square t) {p : Vec F} {reach : F}
    (hb : b ∈ t.near p reach) : b ∈ bodiesOf points :=
  h.perm_visits.subset ((h.near_sublist p reach).subset hb)

/-- A search leaves out the points that a square too far away holds. -/
theorem Filled.mem_near_iff (h : Filled points square t) (p : Vec F) (reach : F)
    (hb : b ∈ bodiesOf points) : b ∈ t.near p reach ↔ t.Clear (tooFar p reach) b 0 := by
  rw [near_eq_kept]
  exact h.lies.mem_kept_iff hb

theorem filled_of_points (ht : ofPoints? points = some t) : ∃ square, Filled points square t := by
  obtain ⟨square, hcover, rfl⟩ := Option.map_eq_some_iff.mp ht
  refine ⟨square, filled_ofBodies ?_ square⟩
  rintro rfl
  exact absurd hcover nofun

omit [Scalar F] in
theorem mem_bodiesOf_iff : b ∈ bodiesOf points ↔ points[b.index]? = some b.pos := by
  refine ⟨getElem?_of_mem_bodiesOf, fun h => ?_⟩
  exact List.mem_map.mpr ⟨(b.pos, b.index), List.mem_zipIdx_iff_getElem?.mpr h, rfl⟩

/-- **What a search finds.**  It finds points in the order in which a walk through all squares
comes by them, none of them twice, and it misses a point if and only if some square on the way
from the root to the point, the root and the leaf included, is further away than the reach. -/
theorem near_of_points (ht : ofPoints? points = some t) (p : Vec F) (reach : F) :
    ((t.near p reach).map (·.index)).Nodup ∧
    (t.near p reach).Sublist (t.visits.flatMap (·.bodies)) ∧
    (∀ b ∈ t.near p reach, points[b.index]? = some b.pos) ∧
    ∀ k pos, points[k]? = some pos → (k ∉ (t.near p reach).map (·.index) ↔
      ∃ depth i slot, t.Descends 0 depth i ∧ t.slots[i]? = some slot ∧ t.Holds i ⟨k, pos⟩ ∧
        reach * reach < slot.cell.square.distanceSq p) := by
  obtain ⟨square, h⟩ := filled_of_points ht
  have hpos : ∀ b ∈ t.near p reach, points[b.index]? = some b.pos := fun b hb =>
    mem_bodiesOf_iff.mp (h.mem_bodiesOf_of_near hb)
  refine ⟨?_, h.near_sublist p reach, hpos, fun k pos hk => ?_⟩
  · have hnodup := (h.perm_visits.map (·.index)).nodup_iff.mpr
      (map_index_bodiesOf points ▸ List.nodup_range)
    exact hnodup.sublist ((h.near_sublist p reach).map _)
  · -- a number stands for one point
    have hmem : k ∈ (t.near p reach).map (·.index) ↔ ⟨k, pos⟩ ∈ t.near p reach := by
      refine ⟨fun hnear => ?_, List.mem_map_of_mem⟩
      obtain ⟨⟨k', pos'⟩, hb, rfl⟩ := List.mem_map.mp hnear
      obtain rfl := Option.some.inj ((hpos _ hb).symm.trans hk)
      exact hb
    rw [hmem, h.mem_near_iff p reach (mem_bodiesOf_iff.mpr hk)]
    simp only [Clear, not_forall, Bool.not_eq_false, tooFar, decide_eq_true_iff, exists_prop]

end Quadtree

end ForceDiagram
