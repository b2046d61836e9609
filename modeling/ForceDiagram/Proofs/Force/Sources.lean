/-
ForceDiagram/Proofs/Force/Sources.lean

What acts on a node, point by point.

A walk through the tree adds up what acts on a node: it takes a square as one
body and leaves out what is inside, or goes on inside and takes the points of the
leaves one by one.  `Charge.meet` is this walk with its sum; its sum is that of
the listed sources (`traverse_meet`).  A source adds one term, which is the change
through a body of its strength, seen from the node; the generator goes from term to
term (`Terms`, `exists_terms`).

`Accounted points t c node` says that the list is right: each point but the node
itself is in it, either alone or as one of those in a single square that acts as
one body, and never in both ways or twice.  Nothing is asked of the numbers but
that the count of some points is above zero, as it is in single precision; which
squares act as one body may be decided in any way.
-/
import ForceDiagram.Force.Charge
import ForceDiagram.Proofs.Quadtree.Pruned
import ForceDiagram.Proofs.Scalar.Counts

namespace ForceDiagram

variable {F : Type} [Scalar F]

namespace Charge

open Quadtree

/-! ### Adding up on the way -/

/-- What a walk adds at a square, and whether it leaves out what is inside. -/
def meet (c : Charge F) (node : Body F) (s : Vec F × Jitter) (v : Visit F) :
    (Vec F × Jitter) × Bool :=
  if isVoid v.cell then (s, true)
  else if c.isGroup node.pos v.cell then (c.accumulate node.pos s (.group v.cell), true)
  else
    ((v.bodies.filter fun b => b.index ≠ node.index).foldl
      (fun s b => c.accumulate node.pos s (.body b)) s, v.isLeaf)

variable (c : Charge F) (node : Body F)

theorem meet_fst (s : Vec F × Jitter) (v : Visit F) :
    (c.meet node s v).1 = (c.sourcesOf node v).foldl (c.accumulate node.pos) s := by
  unfold meet sourcesOf
  split
  · rfl
  · split
    · rfl
    · rw [List.foldl_map]

theorem meet_snd (s : Vec F × Jitter) (v : Visit F) :
    (c.meet node s v).2 = (c.stops node.pos v.cell || v.isLeaf) := by
  unfold meet stops
  rcases isVoid v.cell with - | -
  · rcases c.isGroup node.pos v.cell with - | - <;> rfl
  · rfl

/-- Adding up on the way comes to the sum of the list. -/
theorem traverse_meet (t : Quadtree F) (s : Vec F × Jitter) :
    t.traverse (c.meet node) [0] s = (c.sources t node).foldl (c.accumulate node.pos) s := by
  rw [traverse_eq_foldl t (c.meet_snd node), sources, List.foldl_flatMap]
  simp only [meet_fst]
  rfl

theorem turn_eq {t : Quadtree F} {b : Bodies F} {n : Node F}
    (hn : b.nodes[node.index]? = some n) :
    let sum := (c.sources t node).foldl (c.accumulate node.pos) (n.velocity, b.jitter)
    c.turn t b node = ⟨b.nodes.modify node.index ({ · with velocity := sum.1 }), sum.2⟩ := by
  rw [turn, hn]
  rfl

/-! ### One term for each source -/

/-- The change of velocity through a body that is seen at a difference. -/
def repulsion (c : Charge F) (weight : F) (delta : Vec F) (lengthSq : F) : Vec F :=
  delta * (weight * c.alpha /
    if lengthSq < c.distanceMinSq then Scalar.sqrt (c.distanceMinSq * lengthSq) else lengthSq)

theorem between_eq_repulsion (c : Charge F) (j : Jitter) (delta : Vec F) (weight : F) :
    let seen := j.apart delta delta.lengthSq
    c.between j delta weight = (c.repulsion weight seen.1 seen.2.1, seen.2.2) := rfl

/-- `Terms c p j sources terms j'`: for a node at `p`, the sources add these terms, one each, and
the generator goes from `j` to `j'`.  A single body acts with the strength, a square with the
strength times the number of bodies in it, from its mean. -/
inductive Terms (c : Charge F) (p : Vec F) :
    Jitter → List (Source F) → List (Vec F) → Jitter → Prop
  | nil {j : Jitter} : Terms c p j [] [] j
  | body {b : Body F} {term : Vec F} {j next j' : Jitter} {sources : List (Source F)}
      {terms : List (Vec F)} (hterm : c.between j (b.pos - p) c.strength = (term, next))
      (hrest : Terms c p next sources terms j') :
      Terms c p j (.body b :: sources) (term :: terms) j'
  | group {cell : Cell F} {term : Vec F} {j next j' : Jitter} {sources : List (Source F)}
      {terms : List (Vec F)}
      (hterm : c.between j (cell.center - p) (c.strength * cell.mass) = (term, next))
      (hrest : Terms c p next sources terms j') :
      Terms c p j (.group cell :: sources) (term :: terms) j'

/-- What sources add up to is the sum of their terms. -/
theorem exists_terms (c : Charge F) (p : Vec F) (sources : List (Source F))
    (s : Vec F × Jitter) :
    ∃ terms, c.Terms p s.2 sources terms (sources.foldl (c.accumulate p) s).2 ∧
      (sources.foldl (c.accumulate p) s).1 = terms.foldl (· + ·) s.1 := by
  induction sources generalizing s with
  | nil => exact ⟨[], .nil, rfl⟩
  | cons source sources ih =>
    obtain ⟨terms, hterms, hsum⟩ := ih (c.accumulate p s source)
    cases source with
    | body b => exact ⟨_ :: terms, .body rfl hterms, hsum⟩
    | group cell => exact ⟨_ :: terms, .group rfl hterms, hsum⟩

/-! ### The list of sources -/

/-- What acts on a node out of a slot that has points. -/
def actingFrom (slot : Slot F) : List (Source F) :=
  if c.isGroup node.pos slot.cell then [.group slot.cell]
  else (slot.bodies.filter fun b => b.index ≠ node.index).map .body

/-- The number of a point that acts alone. -/
def Source.index? : Source F → Option Nat
  | .body b => some b.index
  | .group _ => none

/-- The numbers of the points that act alone. -/
def singles (sources : List (Source F)) : List Nat := sources.filterMap Source.index?

/-- The square in slot `i` acts as one body on a point. -/
def GroupAt (t : Quadtree F) (p : Vec F) (i : Nat) : Prop :=
  ∃ slot, t.slots[i]? = some slot ∧ c.isGroup p slot.cell = true

/-- The point with the given number is held in the square in slot `i` or inside
it. -/
def Below (t : Quadtree F) (i k : Nat) : Prop := ∃ b, t.Holds i b ∧ b.index = k

/-- What the sources of a node owe. -/
structure Accounted (points : List (Vec F)) (t : Quadtree F) (c : Charge F) (node : Body F) :
    Prop where
  /-- The node's velocity is changed by one source after the other, the generator
  being passed on, as by a walk that adds up on its way. -/
  turn : ∀ (b : Bodies F) (n : Node F), b.nodes[node.index]? = some n →
    let sum := t.traverse (c.meet node) [0] (n.velocity, b.jitter)
    sum = (c.sources t node).foldl (c.accumulate node.pos) (n.velocity, b.jitter) ∧
      c.turn t b node = ⟨b.nodes.modify node.index ({ · with velocity := sum.1 }), sum.2⟩
  /-- So its velocity gets one term for each source, added in their order, and the
  generator that the last term leaves is left. -/
  terms : ∀ (b : Bodies F) (n : Node F), b.nodes[node.index]? = some n →
    ∃ terms jitter, c.Terms node.pos b.jitter (c.sources t node) terms jitter ∧
      c.turn t b node =
        ⟨b.nodes.modify node.index ({ · with velocity := terms.foldl (· + ·) n.velocity }), jitter⟩
  /-- A term is along the difference at which the body is seen. -/
  term : ∀ (j : Jitter) (delta : Vec F) (weight : F),
    let seen := j.apart delta delta.lengthSq
    c.between j delta weight = (c.repulsion weight seen.1 seen.2.1, seen.2.2)
  /-- The slots met are in the order of all, -/
  preorder : (t.order (c.stops node.pos)).Sublist (t.order fun _ => false)
  /-- and each gives its square as one body, or the points it holds. -/
  sources : c.sources t node =
    (t.order (c.stops node.pos)).flatMap (t.readAt (c.actingFrom node))
  /-- No square is passed over as having nothing in it. -/
  not_isVoid : ∀ slot ∈ t.slots, isVoid slot.cell = false
  single_of_leaf : ∀ k ∈ singles (c.sources t node), ∃ i ∈ t.order (c.stops node.pos),
    ∃ slot, t.slots[i]? = some slot ∧ slot.isLeaf = true ∧ k ∈ slot.bodies.map (·.index)
  not_single_self : node.index ∉ singles (c.sources t node)
  singles_nodup : (singles (c.sources t node)).Nodup
  /-- Every other point acts alone or in one square, -/
  once : ∀ k < points.length, k ≠ node.index →
    (k ∈ singles (c.sources t node) ∧
      ∀ i ∈ t.order (c.stops node.pos), c.GroupAt t node.pos i → ¬ Below t i k) ∨
    (k ∉ singles (c.sources t node) ∧
      ∃! i, i ∈ t.order (c.stops node.pos) ∧ c.GroupAt t node.pos i ∧ Below t i k)
  /-- and the node itself only in a square that does not contain it. -/
  self_outside : ∀ i ∈ t.order (c.stops node.pos), c.GroupAt t node.pos i →
    Below t i node.index →
      ∃ slot, t.slots[i]? = some slot ∧ slot.cell.square.contains node.pos = false
  /-- Where no square acts as one body, all other points act alone. -/
  allPairs : (∀ slot ∈ t.slots, c.isGroup node.pos slot.cell = false) →
    c.sources t node =
      ((t.visits.flatMap (·.bodies)).filter fun b => b.index ≠ node.index).map .body ∧
    (t.visits.flatMap (·.bodies)).Perm (bodiesOf points)

/-! ### The squares met -/

variable {c node} {points : List (Vec F)} {square : Square F} {t : Quadtree F} {i k : Nat}
  {slot : Slot F}

/-- The number of some points is above zero. -/
theorem not_isVoid_of_filled (h : Filled points square t)
    (hcount : ∀ n, 0 < n → ¬ (Scalar.ofNat n : F) ≤ 0)
    (hslot : t.slots[i]? = some slot) : isVoid slot.cell = false := by
  obtain ⟨n, hpos, hn⟩ := h.exists_mass hslot
  rw [isVoid, hn]
  exact decide_eq_false (hcount n hpos)

omit [Scalar F] in
/-- The numbers of points listed one by one. -/
theorem singles_map_body (bodies : List (Body F)) :
    singles (bodies.map .body) = bodies.map (·.index) := by
  rw [singles, List.filterMap_map]
  show bodies.filterMap (some ∘ fun b => b.index) = _
  rw [List.filterMap_eq_map]

omit [Scalar F] in
theorem singles_flatMap (met : List Nat) (f : Nat → List (Source F)) :
    singles (met.flatMap f) = met.flatMap fun i => singles (f i) := List.filterMap_flatMap

theorem singles_actingFrom (c : Charge F) (node : Body F) (slot : Slot F) :
    singles (c.actingFrom node slot) =
      if c.isGroup node.pos slot.cell then []
      else (slot.bodies.map (·.index)).filter (· ≠ node.index) := by
  unfold actingFrom
  split
  · rfl
  · rw [singles_map_body, List.filter_map]
    rfl

/-- Where squares are not empty, a walk stops just at those that act as one body. -/
theorem stops_eq (hsome : isVoid slot.cell = false) (p : Vec F) :
    c.stops p slot.cell = c.isGroup p slot.cell := by
  rw [stops, hsome, Bool.false_or]

theorem sources_eq_flatMap (hsome : ∀ slot ∈ t.slots, isVoid slot.cell = false) :
    c.sources t node = (t.order (c.stops node.pos)).flatMap (t.readAt (c.actingFrom node)) := by
  rw [sources, walk, flatMap_visits]
  refine List.flatMap_congr fun i _ => ?_
  rw [readAt, readAt]
  rcases hslot : t.slots[i]? with - | slot
  · rfl
  · have hslot := hsome slot (Array.mem_of_getElem? hslot)
    show c.sourcesOf node slot.visit = c.actingFrom node slot
    rw [sourcesOf, if_neg (by simp [Slot.visit, hslot])]
    rfl

/-- The points that act alone are among those that the slots met stand for. -/
theorem singlesAt_sublist (hsome : ∀ slot ∈ t.slots, isVoid slot.cell = false) (i : Nat) :
    (singles (t.readAt (c.actingFrom node) i)).Sublist
      ((t.coveredAt (c.stops node.pos) i).map (·.index)) := by
  rw [coveredAt, readAt, readAt]
  rcases hslot : t.slots[i]? with - | slot
  · exact .refl _
  · have hslot := hsome slot (Array.mem_of_getElem? hslot)
    show (singles (c.actingFrom node slot)).Sublist
      (List.map _ (if c.stops node.pos slot.cell then _ else _))
    rw [singles_actingFrom, stops_eq hslot]
    split
    · exact List.nil_sublist _
    · exact List.filter_sublist

theorem groupAt_iff (hslot : t.slots[i]? = some slot) {p : Vec F} :
    c.GroupAt t p i ↔ c.isGroup p slot.cell = true := by
  simp [GroupAt, hslot]

/-- A point acts alone out of a slot that holds it and does not act as one body. -/
theorem mem_singlesAt_iff :
    k ∈ singles (t.readAt (c.actingFrom node) i) ↔
      ¬ c.GroupAt t node.pos i ∧ k ∈ (t.bodiesAt i).map (·.index) ∧ k ≠ node.index := by
  rcases hslot : t.slots[i]? with - | slot
  · simp [readAt, bodiesAt, hslot, singles]
  · rw [groupAt_iff hslot, bodiesAt, readAt_of_some hslot, readAt_of_some hslot,
      singles_actingFrom]
    split
    · simp_all
    · simp_all [List.mem_filter]

/-- The points that a slot stands for are those inside it if it acts as one body. -/
theorem mem_coveredAt_iff (h : Filled points square t) (hi : i < t.slots.size)
    (hsome : ∀ slot ∈ t.slots, isVoid slot.cell = false) :
    k ∈ (t.coveredAt (c.stops node.pos) i).map (·.index) ↔
      c.GroupAt t node.pos i ∧ Below t i k ∨
        ¬ c.GroupAt t node.pos i ∧ k ∈ (t.bodiesAt i).map (·.index) := by
  have hslot := Array.getElem?_eq_getElem hi
  have hvoid := hsome _ (Array.mem_of_getElem? hslot)
  rw [groupAt_iff hslot, coveredAt, bodiesAt, readAt_of_some hslot, readAt_of_some hslot,
    stops_eq hvoid]
  rcases hgroup : c.isGroup node.pos t.slots[i].cell with - | -
  · simp
  · simp only [if_true, List.mem_map, h.mem_within_iff hi, Below]
    simp

/-! ### Every point once -/

/-- Another point acts alone, or in one square that acts as one body. -/
theorem once_of_filled (h : Filled points square t)
    (hsome : ∀ slot ∈ t.slots, isVoid slot.cell = false) (hk : k < points.length)
    (hother : k ≠ node.index) :
    (k ∈ singles (c.sources t node) ∧
      ∀ i ∈ t.order (c.stops node.pos), c.GroupAt t node.pos i → ¬ Below t i k) ∨
    (k ∉ singles (c.sources t node) ∧
      ∃! i, i ∈ t.order (c.stops node.pos) ∧ c.GroupAt t node.pos i ∧ Below t i k) := by
  obtain ⟨i, ⟨hi, hcovers⟩, hunique⟩ := h.exists_unique_covers (c.stops node.pos) hk
  have hcovered : ∀ {j}, j ∈ t.order (c.stops node.pos) →
      (k ∈ (t.coveredAt (c.stops node.pos) j).map (·.index) ↔
        c.GroupAt t node.pos j ∧ Below t j k ∨
          ¬ c.GroupAt t node.pos j ∧ k ∈ (t.bodiesAt j).map (·.index)) := fun hj =>
    mem_coveredAt_iff h (h.lt_size_of_mem_order hj) hsome
  have hmem : k ∈ singles (c.sources t node) ↔
      ∃ j ∈ t.order (c.stops node.pos), ¬ c.GroupAt t node.pos j ∧
        k ∈ (t.bodiesAt j).map (·.index) := by
    rw [sources_eq_flatMap hsome, singles_flatMap, List.mem_flatMap]
    simp only [mem_singlesAt_iff, hother, ne_eq, not_false_eq_true, and_true]
  rcases (hcovered hi).mp hcovers with ⟨hgroup, hbelow⟩ | ⟨hno, hheld⟩
  · right
    refine ⟨fun hsingle => ?_, i, ⟨hi, hgroup, hbelow⟩, fun j hj => ?_⟩
    · obtain ⟨j, hj, hnoj, hheldj⟩ := hmem.mp hsingle
      obtain rfl := hunique j ⟨hj, (hcovered hj).mpr (.inr ⟨hnoj, hheldj⟩)⟩
      exact hnoj hgroup
    · exact hunique j ⟨hj.1, (hcovered hj.1).mpr (.inl hj.2)⟩
  · left
    refine ⟨hmem.mpr ⟨i, hi, hno, hheld⟩, fun j hj hgroupj hbelowj => ?_⟩
    obtain rfl := hunique j ⟨hj, (hcovered hj).mpr (.inl ⟨hgroupj, hbelowj⟩)⟩
    exact hno hgroupj

theorem singles_nodup_of_filled (h : Filled points square t)
    (hsome : ∀ slot ∈ t.slots, isVoid slot.cell = false) :
    (singles (c.sources t node)).Nodup := by
  have hperm := (h.perm_coveredAt (c.stops node.pos)).map (·.index)
  rw [map_index_bodiesOf, List.map_flatMap] at hperm
  rw [sources_eq_flatMap hsome, singles_flatMap]
  exact (hperm.nodup_iff.mpr List.nodup_range).sublist
    (List.Sublist.flatMap_right _ fun i _ => singlesAt_sublist hsome i)

theorem exists_leaf_of_mem_singles (h : Filled points square t)
    (hsome : ∀ slot ∈ t.slots, isVoid slot.cell = false)
    (hk : k ∈ singles (c.sources t node)) :
    ∃ i ∈ t.order (c.stops node.pos), ∃ slot, t.slots[i]? = some slot ∧ slot.isLeaf = true ∧
      k ∈ slot.bodies.map (·.index) ∧ k ≠ node.index := by
  rw [sources_eq_flatMap hsome, singles_flatMap] at hk
  obtain ⟨i, hi, hk⟩ := List.mem_flatMap.mp hk
  obtain ⟨-, hheld, hother⟩ := mem_singlesAt_iff.mp hk
  obtain ⟨b, hb, -⟩ := List.mem_map.mp hheld
  obtain ⟨slot, hslot, hbslot⟩ := mem_bodiesAt.mp hb
  rw [bodiesAt, readAt_of_some hslot] at hheld
  obtain ⟨depth, square', bodies', -, hlies⟩ :=
    h.lies_at (Array.getElem?_eq_some_iff.mp hslot).1
  -- a square that holds a point is a leaf
  have hleaf := (hlies.isLeaf_iff hslot).mpr (List.ne_nil_of_mem hbslot)
  exact ⟨i, hi, slot, hslot, hleaf, hheld, hother⟩

/-- Where no square acts as one body, the sources are the points in the leaves. -/
theorem sources_of_no_group (hsome : ∀ slot ∈ t.slots, isVoid slot.cell = false)
    (hnone : ∀ slot ∈ t.slots, c.isGroup node.pos slot.cell = false) :
    c.sources t node =
      ((t.visits.flatMap (·.bodies)).filter fun b => b.index ≠ node.index).map .body := by
  have hstops : ∀ slot ∈ t.slots, c.stops node.pos slot.cell = false := fun slot hslot =>
    (stops_eq (hsome slot hslot) _).trans (hnone slot hslot)
  have horder : t.order (c.stops node.pos) = t.order fun _ => false := follow_congr hstops [0]
  rw [sources_eq_flatMap hsome, horder, visits, walk, flatMap_visits, List.filter_flatMap,
    List.map_flatMap]
  refine List.flatMap_congr fun i _ => ?_
  rw [readAt, readAt]
  rcases hslot : t.slots[i]? with - | slot
  · rfl
  · show c.actingFrom node slot = _
    rw [actingFrom, if_neg (by simp [hnone slot (Array.mem_of_getElem? hslot)])]
    rfl

theorem perm_bodies_visits (h : Filled points square t) :
    (t.visits.flatMap (·.bodies)).Perm (bodiesOf points) := by
  rw [visits, walk, flatMap_visits, h.order, h.range_size]
  exact perm_bodiesAt h.lies

/-- The account is right where the number of some points is above zero. -/
theorem accounted_of_counts {points : List (Vec F)} {t : Quadtree F}
    (ht : ofPoints? points = some t) (hcount : ∀ n, 0 < n → ¬ (Scalar.ofNat n : F) ≤ 0)
    (c : Charge F) (node : Body F) : Accounted points t c node := by
  obtain ⟨square, hcover, rfl⟩ := Option.map_eq_some_iff.mp ht
  have hpoints : points ≠ [] := by
    rintro rfl
    exact absurd hcover nofun
  have h := filled_ofBodies hpoints square
  have hsome : ∀ slot ∈ (ofBodies square (bodiesOf points)).slots,
      isVoid slot.cell = false := by
    intro slot hslot
    obtain ⟨i, hi⟩ := Array.mem_iff_getElem?.mp hslot
    exact not_isVoid_of_filled h hcount hi
  refine ⟨fun b n hn => ⟨c.traverse_meet node _ _, ?_⟩, fun b n hn => ?_,
    c.between_eq_repulsion, h.order_sublist _, sources_eq_flatMap hsome, hsome,
    fun k hk => ?_, fun hself => ?_, singles_nodup_of_filled h hsome,
    fun k => once_of_filled h hsome, ?_,
    fun hnone => ⟨sources_of_no_group hsome hnone, perm_bodies_visits h⟩⟩
  · rw [traverse_meet]
    exact c.turn_eq node hn
  · obtain ⟨terms, hterms, hsum⟩ :=
      exists_terms c node.pos (c.sources _ node) (n.velocity, b.jitter)
    refine ⟨terms, _, hterms, ?_⟩
    rw [c.turn_eq node hn, hsum]
  · obtain ⟨i, hi, slot, hslot, hleaf, hk, -⟩ := exists_leaf_of_mem_singles h hsome hk
    exact ⟨i, hi, slot, hslot, hleaf, hk⟩
  · obtain ⟨i, -, slot, -, -, -, hother⟩ := exists_leaf_of_mem_singles h hsome hself
    exact hother rfl
  · rintro i - ⟨slot, hslot, hgroup⟩ -
    refine ⟨slot, hslot, ?_⟩
    rw [isGroup, Bool.and_eq_true, Bool.not_eq_true'] at hgroup
    exact hgroup.1

/-- **All that acts on a node is accounted for.**  What a walk through the tree of
some points adds to the velocity of a node is one term for each source, in the
order of the tree; the sources are single points and squares taken as one body,
and every point but the node itself is in just one of them. -/
theorem accounted_of_points {points : List (Vec Float32)} {t : Quadtree Float32}
    (ht : ofPoints? points = some t) (c : Charge Float32) (node : Body Float32) :
    Accounted points t c node :=
  accounted_of_counts ht (fun _ hn => Single.not_ofNat_le_zero hn) c node

/-- Two points close to each other act as one body on a third one far away. -/
theorem accounted_three :
    let points : List (Vec Float32) := [⟨0, 0⟩, ⟨100, 100⟩, ⟨101, 101⟩]
    let c : Charge Float32 := ⟨-30, 1, 1, 1⟩
    let node : Body Float32 := ⟨0, ⟨0, 0⟩⟩
    ∃ t, ofPoints? points = some t ∧ (c.sources t node).length = 1 ∧
      singles (c.sources t node) = [] ∧ Accounted points t c node := by
  intro points c node
  have hsome : (ofPoints? points).map (fun t =>
      ((c.sources t node).length, singles (c.sources t node))) = some (1, []) := by
    decide +kernel
  obtain ⟨t, ht, hsources⟩ := Option.map_eq_some_iff.mp hsome
  obtain ⟨hlength, hsingles⟩ := Prod.mk.inj hsources
  exact ⟨t, ht, hlength, hsingles, accounted_of_points ht c node⟩

end Charge

end ForceDiagram
