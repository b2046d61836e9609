/-
ForceDiagram/Proofs/Quadtree/Pruned.lean

Walks that stop at some squares.

Such a walk meets some of the slots, in the order of all.  A square at which it
stops stands for all points in it, and any other square only for those that it
holds directly; what the squares met stand for are then all points, each once
(`perm_coveredAt`).  This is so whatever tells the walk to stop.

A walk can also do something at each square as it comes by, and decide there
whether to go on inside (`traverse`).  If what it decides does not depend on what
it has done, this comes to the same as going through the squares met one after
the other (`traverse_eq_foldl`).
-/
import ForceDiagram.Proofs.Quadtree.Arranged

namespace ForceDiagram

variable {F : Type} [Scalar F]

namespace Nest

/-- A walk that stops at some squares leaves slots out and changes nothing else. -/
theorem order_sublist (stop : Cell F → Bool) (n : Nest F) (i : Nat) :
    (n.order stop i).Sublist (n.order (fun _ => false) i) := by
  induction n generalizing i with
  | empty => exact .refl _
  | leaf square bodies => exact .refl _
  | fork square bodies part ih =>
    rw [order, order, if_neg Bool.false_ne_true]
    refine List.Sublist.cons_cons i ?_
    split
    · exact List.nil_sublist _
    · exact List.Sublist.flatMap_right _ fun q _ => ih q _

end Nest

namespace Quadtree

variable {t : Quadtree F} {i depth : Nat} {square : Square F} {bodies : List (Body F)}
  {points : List (Vec F)}

/-- The points held in the square in slot `i` or inside it. -/
def within (t : Quadtree F) (i : Nat) : List (Body F) :=
  (t.follow (fun _ => false) [i]).flatMap t.bodiesAt

/-- The points that a slot met by a walk stands for. -/
def coveredAt (t : Quadtree F) (stop : Cell F → Bool) (i : Nat) : List (Body F) :=
  t.readAt (fun slot => if stop slot.cell then t.within i else slot.bodies) i

omit [Scalar F] in
theorem follow_of_none (h : t.slots[i]? = none) (stop : Cell F → Bool) (stack : List Nat) :
    t.follow stop (i :: stack) = t.follow stop stack := by
  rw [follow]
  split
  · rfl
  · rename_i hslot
    rw [h] at hslot
    cases hslot

omit [Scalar F] in
theorem follow_nil (t : Quadtree F) (stop : Cell F → Bool) : t.follow stop [] = [] := by
  rw [follow]

theorem Lies.root_eq (h : t.Lies depth square bodies i) :
    (nest depth square bodies).root i = [i] := by
  have hempty : bodies.isEmpty = false := by simpa using h.points
  rw [Nest.root, isEmpty_nest, hempty]
  rfl

/-- A walk from the slot of a nest goes through the nest. -/
theorem Lies.follow_eq (h : t.Lies depth square bodies i) (stop : Cell F → Bool) :
    t.follow stop [i] = (nest depth square bodies).order stop i := by
  have hfollow := follow_laid stop h.laid []
  rwa [h.root_eq, List.append_nil, follow_nil, List.append_nil] at hfollow

theorem Lies.perm_within (h : t.Lies depth square bodies i) : (t.within i).Perm bodies := by
  rw [within, h.follow_eq, Nest.order_of_not_stopping]
  exact perm_bodiesAt h

theorem Lies.mem_within_iff (h : t.Lies depth square bodies i) {b : Body F} :
    b ∈ t.within i ↔ t.Holds i b := by
  rw [h.perm_within.mem_iff, h.holds_iff]

/-- The squares met in a nest stand for its points. -/
theorem Lies.perm_coveredAt (h : t.Lies depth square bodies i) (stop : Cell F → Bool) :
    (((nest depth square bodies).order stop i).flatMap (t.coveredAt stop)).Perm bodies := by
  obtain ⟨hpoints, hlaid⟩ := h
  refine nest_induction (motive := fun depth square bodies => ∀ i,
      (nest depth square bodies).LaidAt t.slots i →
        (((nest depth square bodies).order stop i).flatMap (t.coveredAt stop)).Perm bodies)
    (fun depth square bodies h htogether i hlaid => ?_)
    (fun depth square bodies h hapart ih i hlaid => ?_) depth square hpoints i hlaid
  · have hwithin := (Lies.mk h hlaid).perm_within
    rw [nest_of_together h htogether] at hlaid ⊢
    show (t.coveredAt stop i ++ []).Perm bodies
    rw [List.append_nil, coveredAt, readAt_of_some hlaid]
    -- a leaf holds all its points, so it stands for them in either case
    split
    · exact hwithin
    · exact .refl _
  · have hwithin := (Lies.mk h hlaid).perm_within
    rw [nest_of_apart h hapart] at hlaid ⊢
    obtain ⟨hslot, hparts⟩ := hlaid
    rw [Nest.order, List.flatMap_cons, coveredAt, readAt_of_some hslot]
    rcases hstop : stop (.ofBodies square bodies) with - | -
    · simp only [Bool.false_eq_true, if_false]
      rw [List.nil_append, List.flatMap_assoc]
      refine (List.Perm.flatMap_left _ fun q _ => ?_).trans (perm_flatMap_inQuarter square bodies)
      rcases eq_or_ne (inQuarter square q bodies) [] with hempty | hsome
      · rw [hempty, nest_nil]
        exact .refl _
      · exact ih q hsome _ (hparts q)
    · simp only [if_true, List.flatMap_nil, List.append_nil]
      exact hwithin

omit [Scalar F] in
/-- What a walk meets depends on what it is told at the squares there are. -/
theorem follow_congr {stop stop' : Cell F → Bool}
    (h : ∀ slot ∈ t.slots, stop slot.cell = stop' slot.cell) (stack : List Nat) :
    t.follow stop stack = t.follow stop' stack := by
  induction stack using follow.induct t stop with
  | case1 => rw [follow_nil, follow_nil]
  | case2 i stack hnone ih => rw [follow_of_none hnone, follow_of_none hnone, ih]
  | case3 i stack slot hslot ih =>
    simp only [dite_eq_ite] at ih
    rw [follow_cons hslot, follow_cons hslot, ih, h slot (Array.mem_of_getElem? hslot)]

omit [Scalar F] in
/-- What is made of the squares met is made of the slots met. -/
theorem flatMap_visits {α : Type} (t : Quadtree F) (f : Visit F → List α) (met : List Nat) :
    (met.filterMap fun i => t.slots[i]?.map Slot.visit).flatMap f =
      met.flatMap (t.readAt fun slot => f slot.visit) := by
  induction met with
  | nil => rfl
  | cons i rest ih =>
    rw [List.filterMap_cons, List.flatMap_cons, ← ih, readAt]
    cases t.slots[i]? <;> rfl

/-! ### Doing something on the way -/

/-- A walk that changes a state at each square it meets, and learns there whether
to leave out what is inside. -/
def traverse {σ : Type} (t : Quadtree F) (meet : σ → Visit F → σ × Bool) :
    (stack : List Nat) → σ → σ
  | [], s => s
  | i :: stack, s =>
    match _h : t.slots[i]? with
    | none => t.traverse meet stack s
    | some slot =>
      let met := meet s slot.visit
      t.traverse meet (if met.2 then stack else slot.childSlots ++ stack) met.1
termination_by stack => ahead t.slots.size stack
decreasing_by
  · exact ahead_lt_cons _ i stack
  · split
    · exact ahead_lt_cons _ i stack
    · rw [ahead_append]
      exact Nat.add_lt_add_right (t.ahead_childSlots_lt _h) _

omit [Scalar F] in
theorem childSlots_of_isLeaf {slot : Slot F} (h : slot.isLeaf = true) : slot.childSlots = [] := by
  refine List.filterMap_eq_nil_iff.mpr fun q hq => ?_
  exact Option.isNone_iff_eq_none.mp (List.all_eq_true.mp h q hq)

omit [Scalar F] in
theorem traverse_of_none {σ : Type} (h : t.slots[i]? = none) (meet : σ → Visit F → σ × Bool)
    (stack : List Nat) (s : σ) : t.traverse meet (i :: stack) s = t.traverse meet stack s := by
  rw [traverse]
  split
  · rfl
  · rename_i hslot
    rw [h] at hslot
    cases hslot

omit [Scalar F] in
theorem traverse_cons {σ : Type} {slot : Slot F} (h : t.slots[i]? = some slot)
    (meet : σ → Visit F → σ × Bool) (stack : List Nat) (s : σ) :
    t.traverse meet (i :: stack) s =
      t.traverse meet (if (meet s slot.visit).2 then stack else slot.childSlots ++ stack)
        (meet s slot.visit).1 := by
  rw [traverse]
  split
  · rename_i hnone
    rw [h] at hnone
    cases hnone
  · rename_i slot' hslot'
    obtain rfl := Option.some.inj (h.symm.trans hslot')
    rfl

omit [Scalar F] in
/-- A walk that skips what is inside a square where it is to be stopped, or where
nothing is inside, does at each square met what it does there. -/
theorem traverse_eq_foldl {σ : Type} (t : Quadtree F) {meet : σ → Visit F → σ × Bool}
    {stop : Cell F → Bool} (hskip : ∀ s v, (meet s v).2 = (stop v.cell || v.isLeaf))
    (stack : List Nat) (s : σ) :
    t.traverse meet stack s =
      ((t.follow stop stack).filterMap fun i => t.slots[i]?.map Slot.visit).foldl
        (fun s v => (meet s v).1) s := by
  induction stack, s using traverse.induct t meet with
  | case1 s =>
    rw [traverse, follow_nil]
    rfl
  | case2 i stack s hnone ih =>
    rw [traverse_of_none hnone, follow_of_none hnone]
    exact ih
  | case3 i stack s slot hslot met ih =>
    -- a leaf has nothing inside, so it does not matter that it is skipped
    have hstack : (if (meet s slot.visit).2 then stack else slot.childSlots ++ stack) =
        if stop slot.cell then stack else slot.childSlots ++ stack := by
      rw [hskip]
      rcases hleaf : slot.isLeaf with - | -
      · simp [Slot.visit, hleaf]
      · simp [Slot.visit, childSlots_of_isLeaf hleaf]
    simp only [dite_eq_ite, met, hstack] at ih
    rw [traverse_cons hslot, hstack, ih, follow_cons hslot, List.filterMap_cons, hslot]
    rfl

/-! ### Walks through all points -/

theorem Filled.order_eq (h : Filled points square t) (stop : Cell F → Bool) :
    t.order stop = (nest depthLimit square (bodiesOf points)).order stop 0 :=
  h.lies.follow_eq stop

theorem Filled.order_sublist (h : Filled points square t) (stop : Cell F → Bool) :
    (t.order stop).Sublist (t.order fun _ => false) := by
  rw [h.order_eq, h.order_eq]
  exact Nest.order_sublist stop _ 0

theorem Filled.lt_size_of_mem_order (h : Filled points square t) {stop : Cell F → Bool}
    (hi : i ∈ t.order stop) : i < t.slots.size := by
  have hall := (h.order_sublist stop).subset hi
  rw [h.order] at hall
  exact List.mem_range.mp hall

/-- Whatever a walk stops at, it comes by every point once. -/
theorem Filled.perm_coveredAt (h : Filled points square t) (stop : Cell F → Bool) :
    ((t.order stop).flatMap (t.coveredAt stop)).Perm (bodiesOf points) := by
  rw [h.order_eq]
  exact h.lies.perm_coveredAt stop

theorem Filled.mem_within_iff (h : Filled points square t) (hi : i < t.slots.size)
    {b : Body F} : b ∈ t.within i ↔ t.Holds i b := by
  obtain ⟨depth, square', bodies', -, hlies⟩ := h.lies_at hi
  exact hlies.mem_within_iff

/-- Every number belongs to one of the slots met. -/
theorem Filled.exists_unique_covers (h : Filled points square t) (stop : Cell F → Bool) {k : Nat}
    (hk : k < points.length) :
    ∃! i, i ∈ t.order stop ∧ k ∈ (t.coveredAt stop i).map (·.index) := by
  have hperm := (h.perm_coveredAt stop).map (·.index)
  rw [map_index_bodiesOf, List.map_flatMap] at hperm
  have hnodup := hperm.nodup_iff.mpr List.nodup_range
  obtain ⟨i, hi, hik⟩ := List.mem_flatMap.mp (hperm.mem_iff.mpr (List.mem_range.mpr hk))
  exact ⟨i, ⟨hi, hik⟩, fun i' hi' => eq_of_mem_of_nodup_flatMap hnodup hi'.1 hi hi'.2 hik⟩

/-- A square of a tree of points has some of them in it. -/
theorem Filled.exists_mass (h : Filled points square t) {slot : Slot F}
    (hslot : t.slots[i]? = some slot) :
    ∃ n, 0 < n ∧ slot.cell.mass = Scalar.ofNat n := by
  obtain ⟨depth, square', bodies', -, hlies⟩ :=
    h.lies_at (Array.getElem?_eq_some_iff.mp hslot).1
  obtain ⟨slot', hslot', hcell⟩ := hlies.exists_slot
  obtain rfl := Option.some.inj (hslot.symm.trans hslot')
  refine ⟨bodies'.length, List.length_pos_iff.mpr hlies.points, ?_⟩
  rw [hcell]
  rfl

end Quadtree

end ForceDiagram
