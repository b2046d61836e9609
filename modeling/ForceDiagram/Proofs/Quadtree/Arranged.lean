/-
ForceDiagram/Proofs/Quadtree/Arranged.lean

What the slots of a tree of points hold.

The statements here are about slots alone: which slot is a quarter of which
(`Child`), which lies how far inside which (`Descends`), and which points are
held in a square or inside it (`Holds`).  `Arranged points t` collects what a
tree of the given points owes, and `arranged_of_points` proves it of every tree
that is built.

The proofs know of each slot that the nest of some points lies there
(`Lies`), as it does at the root and at every quarter of a square where it does.
What concerns all slots at once, that each point and each slot is listed just
once, is read off permutations (`perm_bodiesAt`, `perm_childSlotsAt`).
-/
import ForceDiagram.Proofs.Quadtree.Layout
import ForceDiagram.Scalar.Single
import Mathlib.Data.List.Lattice
import Mathlib.Data.List.Nodup
import Mathlib.Data.List.Pairwise

namespace ForceDiagram

variable {F : Type} [Scalar F]

namespace Quadtree

/-! ### Slots -/

/-- The quarter `q` of the square in slot `i` lies in slot `j`. -/
def Child (t : Quadtree F) (i : Nat) (q : Quarter) (j : Nat) : Prop :=
  ∃ slot, t.slots[i]? = some slot ∧ slot.children q = some j

/-- The square in slot `j` is reached from that in slot `i` by `depth` steps from a
square to a quarter. -/
inductive Descends (t : Quadtree F) (i : Nat) : (depth : Nat) → (j : Nat) → Prop
  | here : Descends t i 0 i
  | step {depth k q j : _} : Descends t i depth k → t.Child k q j → Descends t i (depth + 1) j

/-- The point is held in the square in slot `i` or in a square inside it. -/
def Holds (t : Quadtree F) (i : Nat) (b : Body F) : Prop :=
  ∃ depth j slot, t.Descends i depth j ∧ t.slots[j]? = some slot ∧ b ∈ slot.bodies

/-- What is read off the slot `i`, or nothing beyond the last slot. -/
def readAt {α : Type} (t : Quadtree F) (f : Slot F → List α) (i : Nat) : List α :=
  (t.slots[i]?.map f).getD []

/-- The points held in slot `i` directly. -/
def bodiesAt (t : Quadtree F) : Nat → List (Body F) := t.readAt (·.bodies)

/-- The slots of the quarters of slot `i`. -/
def childSlotsAt (t : Quadtree F) : Nat → List Nat := t.readAt (·.childSlots)

/-- What a tree of points owes. -/
structure Arranged (points : List (Vec F)) (t : Quadtree F) : Prop where
  /-- Every number is listed in one square, -/
  holder : ∀ k < points.length, ∃! i, k ∈ (t.bodiesAt i).map (·.index)
  /-- and there once. -/
  nodup : ∀ i, ((t.bodiesAt i).map (·.index)).Nodup
  pos : ∀ i, ∀ b ∈ t.bodiesAt i, points[b.index]? = some b.pos
  isLeaf_iff : ∀ (i : Nat) (slot : Slot F), t.slots[i]? = some slot →
    (slot.isLeaf = true ↔ slot.bodies ≠ [])
  /-- Points are added up in the order of their numbers. -/
  cell : ∀ (i : Nat) (slot : Slot F), t.slots[i]? = some slot → ∃ below : List (Body F),
    (below.map (·.index)).Pairwise (· < ·) ∧ (∀ b, b ∈ below ↔ t.Holds i b) ∧
    slot.cell.mass = Scalar.ofNat below.length ∧
    slot.cell.center = below.foldl (fun sum b => sum + b.pos) Vec.zero / slot.cell.mass
  root : ∃ root, t.root? = some root ∧ Square.cover? points = some root.square ∧
    root.mass = Scalar.ofNat points.length
  child_range : ∀ i q j, t.Child i q j → i < j ∧ j < t.slots.size
  parent : ∀ j, 0 < j → j < t.slots.size → ∃! p : Nat × Quarter, t.Child p.1 p.2 j
  reached : ∀ j < t.slots.size, ∃ depth, t.Descends 0 depth j
  depth_le : ∀ depth j, t.Descends 0 depth j → depth ≤ depthLimit
  /-- Points that share a leaf coincide, or division has come to its end. -/
  shared : ∀ depth j (slot : Slot F), t.Descends 0 depth j → t.slots[j]? = some slot →
    1 < slot.bodies.length →
    (∃ first, slot.bodies.head? = some first ∧
      ∀ b ∈ slot.bodies, (b.pos == first.pos) = true) ∨ depth = depthLimit
  quarter : ∀ (i : Nat) (q : Quarter) (j : Nat) (parent child : Slot F),
    t.slots[i]? = some parent → parent.children q = some j →
    t.slots[j]? = some child →
    child.cell.square = parent.cell.square.quarter q ∧
      ∀ b, t.Holds j b → parent.cell.square.quarterOf b.pos = q
  size_le : t.slots.size ≤ (depthLimit + 1) * points.length
  order : t.order (fun _ => false) = List.range t.slots.size
  visits : t.visits = t.slots.toList.map Slot.visit

variable {t : Quadtree F} {i j depth : Nat} {q : Quarter} {square : Square F}
  {bodies : List (Body F)}

omit [Scalar F] in
theorem Descends.head {k : Nat} (hchild : t.Child i q k) (h : t.Descends k depth j) :
    t.Descends i (depth + 1) j := by
  induction h with
  | here => exact .step .here hchild
  | step _ hstep ih => exact .step ih hstep

/-! ### Nests in slots -/

/-- The nest of the given points, of which there are some, lies in the slots from
`i` on. -/
structure Lies (t : Quadtree F) (depth : Nat) (square : Square F) (bodies : List (Body F))
    (i : Nat) : Prop where
  points : bodies ≠ []
  laid : (nest depth square bodies).LaidAt t.slots i

/-- The slot of a nest is that of a leaf, or of a square with slots for just those
quarters that have points, where their nests lie. -/
theorem Lies.cases (h : t.Lies depth square bodies i) :
    (t.slots[i]? = some (.leaf square bodies) ∧ (together bodies = true ∨ depth = 0)) ∨
      ∃ below children, depth = below + 1 ∧
        t.slots[i]? = some ⟨.ofBodies square bodies, [], children⟩ ∧
        (∀ q, inQuarter square q bodies ≠ [] → ∃ j, children q = some j) ∧
        ∀ q j, children q = some j →
          t.Lies below (square.quarter q) (inQuarter square q bodies) j := by
  obtain ⟨hpoints, hlaid⟩ := h
  rcases htogether : together bodies with - | -
  · cases depth with
    | zero =>
      -- no depth is left, so the points are held here all the same
      rw [nest_of_together hpoints (.inr rfl)] at hlaid
      exact .inl ⟨hlaid, .inr rfl⟩
    | succ below =>
      rw [nest_of_apart hpoints htogether] at hlaid
      obtain ⟨hslot, hparts⟩ := hlaid
      refine .inr ⟨below, _, rfl, hslot, fun q hq => ?_, fun q j hj => ?_⟩
      · rw [Nest.child, isEmpty_nest, if_neg (by simpa using hq)]
        exact ⟨_, rfl⟩
      · rw [Nest.child, isEmpty_nest] at hj
        split at hj
        · cases hj
        · rename_i hq
          rw [← Option.some.inj hj]
          exact ⟨by simpa using hq, hparts q⟩
  · rw [nest_of_together hpoints (.inl htogether)] at hlaid
    exact .inl ⟨hlaid, .inl rfl⟩

/-- Whatever its quarters are, the cell of the slot is that of the points. -/
theorem Lies.exists_slot (h : t.Lies depth square bodies i) :
    ∃ slot, t.slots[i]? = some slot ∧ slot.cell = .ofBodies square bodies := by
  obtain ⟨hslot, -⟩ | ⟨below, children, -, hslot, -⟩ := h.cases
  · exact ⟨_, hslot, rfl⟩
  · exact ⟨_, hslot, rfl⟩

theorem Lies.child (h : t.Lies depth square bodies i) (hchild : t.Child i q j) :
    ∃ below, depth = below + 1 ∧
      t.Lies below (square.quarter q) (inQuarter square q bodies) j := by
  obtain ⟨slot, hslot, hq⟩ := hchild
  obtain ⟨hleaf, -⟩ | ⟨below, children, hdepth, hfork, -, hlies⟩ := h.cases
  · obtain rfl := Option.some.inj (hslot.symm.trans hleaf)
    exact absurd hq nofun
  · obtain rfl := Option.some.inj (hslot.symm.trans hfork)
    exact ⟨below, hdepth, hlies q j hq⟩

/-- Further inside there are nests of some of the points. -/
theorem Lies.descends {down : Nat} (h : t.Lies depth square bodies i)
    (hdescends : t.Descends i down j) :
    down ≤ depth ∧ ∃ square' bodies', bodies'.Sublist bodies ∧
      t.Lies (depth - down) square' bodies' j := by
  induction hdescends with
  | here => exact ⟨Nat.zero_le _, square, bodies, .refl _, h⟩
  | @step down k q j _ hstep ih =>
    obtain ⟨hdown, square', bodies', hsub, hlies⟩ := ih
    obtain ⟨below, hbelow, hchild⟩ := hlies.child hstep
    obtain rfl : below = depth - (down + 1) := by omega
    exact ⟨by omega, _, _, List.filter_sublist.trans hsub, hchild⟩

omit [Scalar F] in
theorem mem_bodiesAt {b : Body F} :
    b ∈ t.bodiesAt i ↔ ∃ slot, t.slots[i]? = some slot ∧ b ∈ slot.bodies := by
  rw [bodiesAt, readAt]
  cases t.slots[i]? <;> simp

theorem Lies.bodiesAt_sublist (h : t.Lies depth square bodies i) :
    (t.bodiesAt i).Sublist bodies := by
  obtain ⟨hslot, -⟩ | ⟨below, children, -, hslot, -⟩ := h.cases
  · rw [bodiesAt, readAt, hslot]
    exact .refl _
  · rw [bodiesAt, readAt, hslot]
    exact List.nil_sublist _

/-- The points of a nest are those held in its square or inside it. -/
theorem Lies.holds_iff (h : t.Lies depth square bodies i) {b : Body F} :
    t.Holds i b ↔ b ∈ bodies := by
  constructor
  · rintro ⟨down, j, slot, hdescends, hslot, hb⟩
    obtain ⟨-, square', bodies', hsub, hlies⟩ := h.descends hdescends
    exact hsub.subset (hlies.bodiesAt_sublist.subset (mem_bodiesAt.mpr ⟨slot, hslot, hb⟩))
  · intro hb
    induction depth generalizing square bodies i with
    | zero =>
      obtain ⟨hslot, -⟩ | ⟨below, children, hdepth, -⟩ := h.cases
      · exact ⟨0, i, _, .here, hslot, hb⟩
      · exact absurd hdepth nofun
    | succ depth ih =>
      obtain ⟨hslot, -⟩ | ⟨below, children, hdepth, hslot, hpoints, hlies⟩ := h.cases
      · exact ⟨0, i, _, .here, hslot, hb⟩
      · -- the point is further inside, in its quarter
        obtain rfl := Nat.succ.inj hdepth
        have hquarter : b ∈ inQuarter square (square.quarterOf b.pos) bodies :=
          mem_inQuarter.mpr ⟨hb, rfl⟩
        obtain ⟨j, hj⟩ := hpoints _ (List.ne_nil_of_mem hquarter)
        obtain ⟨down, k, slot, hdescends, hk, hheld⟩ := ih (hlies _ j hj) hquarter
        exact ⟨down + 1, k, slot, hdescends.head ⟨_, hslot, hj⟩, hk, hheld⟩

/-- Every slot of a nest is reached from the first. -/
theorem exists_descends {n : Nest F} (h : n.LaidAt t.slots i)
    (hj : j ∈ List.range' i n.size) : ∃ down, t.Descends i down j := by
  induction n generalizing i with
  | empty => exact absurd hj List.not_mem_nil
  | leaf square bodies =>
    obtain rfl := List.mem_singleton.mp hj
    exact ⟨0, .here⟩
  | fork square bodies part ih =>
    obtain ⟨hslot, hparts⟩ := h
    rw [Nest.range'_size_fork] at hj
    rcases List.mem_cons.mp hj with rfl | hj
    · exact ⟨0, .here⟩
    · obtain ⟨q, -, hq⟩ := List.mem_flatMap.mp hj
      have hsome : (part q).isEmpty = false := by
        rcases hempty : (part q).isEmpty with - | -
        · rfl
        · rw [Nest.isEmpty_iff.mp hempty] at hq
          exact absurd hq List.not_mem_nil
      have hchild : t.Child i q (i + 1 + Nest.before part q) :=
        ⟨_, hslot, if_neg (by simp [hsome])⟩
      obtain ⟨down, hdescends⟩ := ih q (hparts q) hq
      exact ⟨down + 1, hdescends.head hchild⟩

/-! ### Everything once -/

omit [Scalar F] in
theorem readAt_of_some {α : Type} {slot : Slot F} (h : t.slots[i]? = some slot)
    (f : Slot F → List α) : t.readAt f i = f slot := by
  rw [readAt, h]
  rfl

omit [Scalar F] in
theorem lt_size_of_mem_readAt {α : Type} {f : Slot F → List α} {x : α} (h : x ∈ t.readAt f i) :
    i < t.slots.size := by
  by_contra hout
  rw [readAt, Array.getElem?_eq_none (Nat.not_lt.mp hout)] at h
  exact absurd h List.not_mem_nil

/-- The slots of a nest list its points. -/
theorem perm_bodiesAt (h : t.Lies depth square bodies i) :
    ((List.range' i (nest depth square bodies).size).flatMap t.bodiesAt).Perm bodies := by
  obtain ⟨hpoints, hlaid⟩ := h
  refine nest_induction (motive := fun depth square bodies => ∀ i,
      (nest depth square bodies).LaidAt t.slots i →
        ((List.range' i (nest depth square bodies).size).flatMap t.bodiesAt).Perm bodies)
    (fun depth square bodies h htogether i hlaid => ?_)
    (fun depth square bodies h hapart ih i hlaid => ?_) depth square hpoints i hlaid
  · rw [nest_of_together h htogether] at hlaid ⊢
    show (t.bodiesAt i ++ []).Perm bodies
    rw [List.append_nil, bodiesAt, readAt_of_some hlaid]
    exact .refl _
  · rw [nest_of_apart h hapart] at hlaid ⊢
    obtain ⟨hslot, hparts⟩ := hlaid
    have hnone : t.bodiesAt i = [] := readAt_of_some hslot _
    rw [Nest.range'_size_fork, List.flatMap_cons, hnone, List.nil_append, List.flatMap_assoc]
    refine (List.Perm.flatMap_left _ fun q _ => ?_).trans (perm_flatMap_inQuarter square bodies)
    rcases eq_or_ne (inQuarter square q bodies) [] with hempty | hsome
    · rw [hempty, nest_nil]
      exact .refl _
    · exact ih q hsome _ (hparts q)

/-- The slots of a nest but the first are those of quarters. -/
theorem perm_childSlotsAt {n : Nest F} (h : n.LaidAt t.slots i) :
    (n.root i ++ (List.range' i n.size).flatMap t.childSlotsAt).Perm (List.range' i n.size) := by
  induction n generalizing i with
  | empty => exact .refl _
  | leaf square bodies =>
    have hnone : t.childSlotsAt i = [] := readAt_of_some h _
    show ([i] ++ (t.childSlotsAt i ++ [])).Perm [i]
    rw [hnone]
    exact .refl _
  | fork square bodies part ih =>
    obtain ⟨hslot, hparts⟩ := h
    -- the square lists the first slot of each part, each part lists the others
    have hchildren : t.childSlotsAt i =
        Quarter.all.flatMap fun q => (part q).root (i + 1 + Nest.before part q) := by
      rw [childSlotsAt, readAt_of_some hslot, Nest.childSlots_eq_flatMap_root]
    rw [Nest.range'_size_fork, List.flatMap_cons, hchildren, List.flatMap_assoc]
    refine List.Perm.cons i ((List.flatMap_append_perm _ _ _).trans ?_)
    exact List.Perm.flatMap_left _ fun q _ => ih q (hparts q)

theorem eq_of_mem_of_nodup_flatMap {α β : Type} {l : List α} {f : α → List β}
    (h : (l.flatMap f).Nodup) {a b : α} (ha : a ∈ l) (hb : b ∈ l) {x : β} (hxa : x ∈ f a)
    (hxb : x ∈ f b) : a = b := by
  by_contra hne
  have hsymm : Std.Symm (Function.onFun List.Disjoint f) := ⟨fun _ _ => List.Disjoint.symm⟩
  exact (List.nodup_flatMap.mp h).2.forall ha hb hne hxa hxb

omit [Scalar F] in
/-- Two slots do not list one quarter. -/
theorem child_unique (hchildren : ((List.range t.slots.size).flatMap t.childSlotsAt).Nodup)
    {i' : Nat} {q' : Quarter} (h : t.Child i q j) (h' : t.Child i' q' j) :
    i = i' ∧ q = q' := by
  have hmem : ∀ {i q}, t.Child i q j → j ∈ t.childSlotsAt i := by
    rintro i q ⟨slot, hslot, hq⟩
    rw [childSlotsAt, readAt_of_some hslot]
    exact List.mem_filterMap.mpr ⟨q, q.mem_all, hq⟩
  have hrange : ∀ {i q}, t.Child i q j → i ∈ List.range t.slots.size := fun h =>
    List.mem_range.mpr (lt_size_of_mem_readAt (hmem h))
  obtain rfl := eq_of_mem_of_nodup_flatMap hchildren (hrange h) (hrange h') (hmem h) (hmem h')
  refine ⟨rfl, ?_⟩
  -- and within one slot no two quarters are in one place
  obtain ⟨slot, hslot, hq⟩ := h
  obtain ⟨slot', hslot', hq'⟩ := h'
  obtain rfl := Option.some.inj (hslot.symm.trans hslot')
  have hnodup := (List.nodup_flatMap.mp hchildren).1 i (hrange ⟨slot, hslot, hq⟩)
  rw [childSlotsAt, readAt_of_some hslot, Slot.childSlots,
    List.filterMap_eq_flatMap_toList] at hnodup
  exact eq_of_mem_of_nodup_flatMap (x := j) hnodup q.mem_all q'.mem_all (by simp [hq])
    (by simp [hq'])

/-! ### Points and their numbers -/

omit [Scalar F] in
theorem map_index_bodiesOf (points : List (Vec F)) :
    (bodiesOf points).map (·.index) = List.range points.length := by
  rw [bodiesOf, List.map_map, List.range_eq_range']
  exact List.zipIdx_map_snd 0 points

omit [Scalar F] in
theorem length_bodiesOf (points : List (Vec F)) : (bodiesOf points).length = points.length := by
  rw [bodiesOf, List.length_map, List.length_zipIdx]

omit [Scalar F] in
theorem getElem?_of_mem_bodiesOf {points : List (Vec F)} {b : Body F} (h : b ∈ bodiesOf points) :
    points[b.index]? = some b.pos := by
  obtain ⟨p, hp, rfl⟩ := List.mem_map.mp h
  exact List.mem_zipIdx_iff_getElem?.mp hp

omit [Scalar F] in
/-- Some of the points, taken in their order, are in the order of their numbers. -/
theorem pairwise_index_of_sublist {points : List (Vec F)} (h : bodies.Sublist (bodiesOf points)) :
    (bodies.map (·.index)).Pairwise (· < ·) := by
  have hsub := h.map (·.index)
  rw [map_index_bodiesOf] at hsub
  exact List.pairwise_lt_range.sublist hsub

/-! ### Trees of points -/

theorem Lies.isLeaf_iff (h : t.Lies depth square bodies i) {slot : Slot F}
    (hslot : t.slots[i]? = some slot) : slot.isLeaf = true ↔ slot.bodies ≠ [] := by
  obtain ⟨hleaf, -⟩ | ⟨below, children, -, hfork, hpoints, -⟩ := h.cases
  · obtain rfl := Option.some.inj (hslot.symm.trans hleaf)
    exact iff_of_true rfl h.points
  · obtain rfl := Option.some.inj (hslot.symm.trans hfork)
    -- the quarter of any point has a slot
    obtain ⟨b, hb⟩ := List.exists_mem_of_ne_nil bodies h.points
    have hquarter : b ∈ inQuarter square (square.quarterOf b.pos) bodies :=
      mem_inQuarter.mpr ⟨hb, rfl⟩
    obtain ⟨j, hj⟩ := hpoints _ (List.ne_nil_of_mem hquarter)
    refine iff_of_false (fun hleaf => ?_) (fun hsome => hsome rfl)
    have hnone := List.all_eq_true.mp hleaf (square.quarterOf b.pos) (Quarter.mem_all _)
    simp [hj] at hnone

theorem head_of_coincide {bodies : List (Body F)} (h : bodies ≠ [])
    (hsame : coincide bodies = true) :
    ∃ first, bodies.head? = some first ∧ ∀ b ∈ bodies, (b.pos == first.pos) = true := by
  obtain ⟨first, rest, rfl⟩ := List.exists_cons_of_ne_nil h
  exact ⟨first, rfl, List.all_eq_true.mp hsame⟩

/-- The nest of all points fills the slots. -/
structure Filled (points : List (Vec F)) (square : Square F) (t : Quadtree F) : Prop where
  lies : t.Lies depthLimit square (bodiesOf points) 0
  size : t.slots.size = (nest depthLimit square (bodiesOf points)).size

theorem filled_ofBodies {points : List (Vec F)} (h : points ≠ []) (square : Square F) :
    Filled points square (ofBodies square (bodiesOf points)) := by
  have hbodies : bodiesOf points ≠ [] := by
    rw [← List.length_pos_iff, length_bodiesOf]
    exact List.length_pos_iff.mpr h
  have hlays := lays_split depthLimit square hbodies
  refine ⟨⟨hbodies, hlays.laid #[]⟩, ?_⟩
  show (split depthLimit square (bodiesOf points) #[]).1.size = _
  rw [hlays.size]
  exact Nat.zero_add _

variable {points : List (Vec F)}

theorem Filled.range_size (h : Filled points square t) : List.range t.slots.size =
    List.range' 0 (nest depthLimit square (bodiesOf points)).size := by
  rw [h.size, List.range_eq_range']

theorem Filled.root_eq (h : Filled points square t) :
    (nest depthLimit square (bodiesOf points)).root 0 = [0] := by
  have hempty : (bodiesOf points).isEmpty = false := by simpa using h.lies.points
  rw [Nest.root, isEmpty_nest, hempty]
  rfl

theorem Filled.reached (h : Filled points square t) (hj : j < t.slots.size) :
    ∃ down, t.Descends 0 down j := by
  refine exists_descends h.lies.laid ?_
  rw [← h.range_size]
  exact List.mem_range.mpr hj

/-- In every slot there is the nest of some of the points. -/
theorem Filled.lies_at (h : Filled points square t) (hj : j < t.slots.size) :
    ∃ depth square' bodies', bodies'.Sublist (bodiesOf points) ∧
      t.Lies depth square' bodies' j := by
  obtain ⟨down, hdescends⟩ := h.reached hj
  obtain ⟨-, square', bodies', hlies⟩ := h.lies.descends hdescends
  exact ⟨depthLimit - down, square', bodies', hlies⟩

/-- Every number is listed once. -/
theorem Filled.perm_index (h : Filled points square t) :
    ((List.range t.slots.size).flatMap fun i => (t.bodiesAt i).map (·.index)).Perm
      (List.range points.length) := by
  rw [← List.map_flatMap, h.range_size, ← map_index_bodiesOf]
  exact (perm_bodiesAt h.lies).map _

/-- Every slot but the first is listed once. -/
theorem Filled.perm_children (h : Filled points square t) :
    (0 :: (List.range t.slots.size).flatMap t.childSlotsAt).Perm (List.range t.slots.size) := by
  have hperm := perm_childSlotsAt h.lies.laid
  rwa [h.root_eq, ← h.range_size] at hperm

theorem Filled.holder (h : Filled points square t) {k : Nat} (hk : k < points.length) :
    ∃! i, k ∈ (t.bodiesAt i).map (·.index) := by
  have hnodup := h.perm_index.nodup_iff.mpr List.nodup_range
  have hrange : ∀ {i}, k ∈ (t.bodiesAt i).map (·.index) → i ∈ List.range t.slots.size := by
    intro i hi
    obtain ⟨b, hb, -⟩ := List.mem_map.mp hi
    exact List.mem_range.mpr (lt_size_of_mem_readAt hb)
  obtain ⟨i, -, hi⟩ := List.mem_flatMap.mp (h.perm_index.mem_iff.mpr (List.mem_range.mpr hk))
  refine ⟨i, hi, fun i' hi' => ?_⟩
  exact eq_of_mem_of_nodup_flatMap hnodup (hrange hi') (hrange hi) hi' hi

theorem Filled.parent (h : Filled points square t) (hj : 0 < j) (hjsize : j < t.slots.size) :
    ∃! p : Nat × Quarter, t.Child p.1 p.2 j := by
  have hnodup := (List.nodup_cons.mp (h.perm_children.nodup_iff.mpr List.nodup_range)).2
  obtain ⟨down, hdescends⟩ := h.reached hjsize
  cases hdescends with
  | here => exact absurd hj (Nat.lt_irrefl 0)
  | @step down i q _ _ hchild =>
    refine ⟨(i, q), hchild, fun p hp => ?_⟩
    obtain ⟨hi, hq⟩ := child_unique hnodup hp hchild
    exact Prod.ext hi hq

theorem Filled.shared (h : Filled points square t) {slot : Slot F}
    (hdescends : t.Descends 0 depth j) (hslot : t.slots[j]? = some slot)
    (hmany : 1 < slot.bodies.length) :
    (∃ first, slot.bodies.head? = some first ∧
      ∀ b ∈ slot.bodies, (b.pos == first.pos) = true) ∨ depth = depthLimit := by
  obtain ⟨hdepth, square', bodies', -, hlies⟩ := h.lies.descends hdescends
  obtain ⟨hleaf, htogether⟩ | ⟨below, children, -, hfork, -⟩ := hlies.cases
  · obtain rfl := Option.some.inj (hslot.symm.trans hleaf)
    rcases htogether with htogether | hend
    · left
      have hmany : 1 < bodies'.length := hmany
      have hsame : coincide bodies' = true := by
        rw [together, decide_eq_false (by omega), Bool.false_or] at htogether
        exact htogether
      exact head_of_coincide hlies.points hsame
    · right
      omega
  · obtain rfl := Option.some.inj (hslot.symm.trans hfork)
    exact absurd hmany (Nat.not_lt_zero 1)

/-- A quarter lies in its square, and so do its points. -/
theorem Filled.quarter (h : Filled points square t) {parent child : Slot F}
    (hparent : t.slots[i]? = some parent) (hq : parent.children q = some j)
    (hchild : t.slots[j]? = some child) :
    child.cell.square = parent.cell.square.quarter q ∧
      ∀ b, t.Holds j b → parent.cell.square.quarterOf b.pos = q := by
  obtain ⟨depth, square', bodies', -, hlies⟩ :=
    h.lies_at (Array.getElem?_eq_some_iff.mp hparent).1
  obtain ⟨below, -, hliesChild⟩ := hlies.child ⟨parent, hparent, hq⟩
  obtain ⟨slot, hslot, hcell⟩ := hlies.exists_slot
  obtain rfl := Option.some.inj (hparent.symm.trans hslot)
  obtain ⟨slot, hslot, hcellChild⟩ := hliesChild.exists_slot
  obtain rfl := Option.some.inj (hchild.symm.trans hslot)
  rw [hcell, hcellChild]
  refine ⟨rfl, fun b hb => ?_⟩
  exact (mem_inQuarter.mp (hliesChild.holds_iff.mp hb)).2

/-- The mass and the center are those of the points in the square. -/
theorem Filled.cell (h : Filled points square t) {slot : Slot F} (hslot : t.slots[i]? = some slot) :
    ∃ below : List (Body F), (below.map (·.index)).Pairwise (· < ·) ∧
      (∀ b, b ∈ below ↔ t.Holds i b) ∧ slot.cell.mass = Scalar.ofNat below.length ∧
      slot.cell.center = below.foldl (fun sum b => sum + b.pos) Vec.zero / slot.cell.mass := by
  obtain ⟨depth, square', bodies', hsub, hlies⟩ :=
    h.lies_at (Array.getElem?_eq_some_iff.mp hslot).1
  obtain ⟨slot', hslot', hcell⟩ := hlies.exists_slot
  obtain rfl := Option.some.inj (hslot.symm.trans hslot')
  refine ⟨bodies', pairwise_index_of_sublist hsub, fun b => hlies.holds_iff.symm, ?_, ?_⟩
  · rw [hcell]
    rfl
  · rw [hcell]
    rfl

/-- A walk that stops nowhere goes through the slots in their order. -/
theorem Filled.order (h : Filled points square t) :
    t.order (fun _ => false) = List.range t.slots.size := by
  have hfollow := follow_laid (fun _ => false) h.lies.laid []
  have hnil : t.follow (fun _ => false) [] = [] := by rw [follow]
  rw [h.root_eq, Nest.order_of_not_stopping, ← h.range_size, hnil, List.append_nil,
    List.append_nil] at hfollow
  exact hfollow

theorem Filled.visits (h : Filled points square t) :
    t.visits = t.slots.toList.map Slot.visit := by
  have hread : ∀ slots : List (Slot F),
      ((List.range slots.length).filterMap fun i => slots[i]?.map Slot.visit) =
        slots.map Slot.visit := by
    intro slots
    induction slots with
    | nil => rfl
    | cons slot rest ih =>
      rw [List.length_cons, List.range_succ_eq_map, List.filterMap_cons, List.filterMap_map,
        List.map_cons, ← ih]
      rfl
  rw [Quadtree.visits, walk, h.order, ← hread, Array.length_toList]
  simp only [Array.getElem?_toList]

theorem Filled.bodiesAt_sublist (h : Filled points square t) (i : Nat) :
    (t.bodiesAt i).Sublist (bodiesOf points) := by
  rcases Nat.lt_or_ge i t.slots.size with hi | hi
  · obtain ⟨depth, square', bodies', hsub, hlies⟩ := h.lies_at hi
    exact hlies.bodiesAt_sublist.trans hsub
  · rw [bodiesAt, readAt, Array.getElem?_eq_none hi]
    exact List.nil_sublist _

/-- **Every tree of points is arranged as it ought to be**, however the points lie
and whatever the comparisons of their coordinates say. -/
theorem arranged_of_points (points : List (Vec F)) {t : Quadtree F}
    (ht : ofPoints? points = some t) : t.Arranged points := by
  obtain ⟨square, hcover, rfl⟩ := Option.map_eq_some_iff.mp ht
  have hpoints : points ≠ [] := by
    rintro rfl
    exact absurd hcover nofun
  have h := filled_ofBodies hpoints square
  obtain ⟨root, hroot, hcell⟩ := h.lies.exists_slot
  refine ⟨fun k => h.holder, fun i => ?_, fun i b hb => ?_, fun i slot hslot => ?_,
    fun i slot => h.cell, ⟨root.cell, ?_, ?_, ?_⟩, ?_, fun j => h.parent, fun j => h.reached,
    fun depth j hdescends => (h.lies.descends hdescends).1, fun depth j slot => h.shared,
    fun i q j parent child => h.quarter, ?_, h.order, h.visits⟩
  · exact (pairwise_index_of_sublist (h.bodiesAt_sublist i)).imp Nat.ne_of_lt
  · exact getElem?_of_mem_bodiesOf ((h.bodiesAt_sublist i).subset hb)
  · obtain ⟨depth, square', bodies', -, hlies⟩ :=
      h.lies_at (Array.getElem?_eq_some_iff.mp hslot).1
    exact hlies.isLeaf_iff hslot
  · rw [root?, hroot]
    rfl
  · rw [hcell]
    exact hcover
  · rw [hcell, ← length_bodiesOf points]
    rfl
  · rintro i q j ⟨slot, hslot, hq⟩
    exact (ofBodies square (bodiesOf points)).ordered i slot hslot q j hq
  · rw [h.size, ← length_bodiesOf points]
    exact size_nest_le depthLimit square (bodiesOf points)

/-- Two points at one place share a leaf, away from the third. -/
theorem arranged_three : ∃ t : Quadtree Float32,
    ofPoints? [⟨1, 1⟩, ⟨3, 1⟩, ⟨3, 1⟩] = some t ∧ t.slots.size = 3 ∧
      t.Arranged [⟨1, 1⟩, ⟨3, 1⟩, ⟨3, 1⟩] := by
  have hsome : (ofPoints? ([⟨1, 1⟩, ⟨3, 1⟩, ⟨3, 1⟩] : List (Vec Float32))).map
      (·.slots.size) = some 3 := by decide +kernel
  obtain ⟨t, ht, hsize⟩ := Option.map_eq_some_iff.mp hsome
  exact ⟨t, ht, hsize, arranged_of_points _ ht⟩

end Quadtree

end ForceDiagram
