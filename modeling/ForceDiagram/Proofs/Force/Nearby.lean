/-
ForceDiagram/Proofs/Force/Nearby.lean

No point within reach is missed.

A search passes over a square if even the nearest point of the square is out of reach, and what
it takes for the distance to that point is rounded.  Still it is never more than the distance
to a point in the square, as it is computed: along each axis the gap to the square is at most
the distance along this axis, both rounded, because operations keep the order
(`Scalar.Isotone.gap_sq_le`).  So a search misses no point within reach, if squares contain the
points that they hold; and two nodes within reach of one another at the beginning of a round
meet in it.

Main result: `near_complete`.
-/
import ForceDiagram.Proofs.Force.Encounters
import ForceDiagram.Proofs.Quadtree.Covered
import ForceDiagram.Proofs.Scalar.Isotone

namespace ForceDiagram

variable {F : Type} [Scalar F]

open Scalar

/-! ### The distance to a square -/

/-- The gap between a number and an interval is not below zero, and no more than the distance to
any number in the interval. -/
theorem Scalar.Isotone.gap_sq_le (h : Isotone F) {low high p q : F} (hq : isFinite q = true)
    (hlow : low ≤ p) (hhigh : p ≤ high) :
    0 ≤ greater (greater (low - q) (q - high)) 0 ∧
      greater (greater (low - q) (q - high)) 0 * greater (greater (low - q) (q - high)) 0 ≤
        (q - p) * (q - p) := by
  have hpick := h.picks_greater
  have hself : 0 ≤ q - q := h.sub_self_nonneg hq
  have hgap : 0 ≤ greater (greater (low - q) (q - high)) 0 :=
    hpick.right (h.isNumber_of_le hself).1
  -- the gap is one of three, and bounded by what bounds all three
  have hbound : ∀ w, low - q ≤ w → q - high ≤ w → 0 ≤ w →
      greater (greater (low - q) (q - high)) 0 ≤ w := by
    intro w hleft hright hzero
    rcases hpick.either (greater (low - q) (q - high)) 0 with heq | heq
    · rw [heq]
      rcases hpick.either (low - q) (q - high) with heq | heq
      · rwa [heq]
      · rwa [heq]
    · rwa [heq]
  refine ⟨hgap, ?_⟩
  have hp : isNumber p = true := (h.isNumber_of_le hlow).2
  rcases h.le_total hp (h.isNumber_of_isFinite hq) with hpq | hqp
  · have hzero : 0 ≤ q - p := h.le_trans hself (h.sub_le_sub_left hq hpq)
    have hleft : low - q ≤ q - p :=
      h.le_trans (h.sub_le_sub_right hq (h.le_trans hlow hpq)) (h.sub_le_sub_left hq hpq)
    exact h.mul_self_le_mul_self hgap (hbound _ hleft (h.sub_le_sub_left hq hhigh) hzero)
  · -- the point is on the other side, and its distance is the opposite difference
    have hzero : 0 ≤ p - q := h.le_trans hself (h.sub_le_sub_right hq hqp)
    have hright : q - high ≤ p - q :=
      h.le_trans (h.sub_le_sub_left hq (h.le_trans hqp hhigh)) (h.sub_le_sub_right hq hqp)
    have hle := hbound _ (h.sub_le_sub_right hq hlow) hright hzero
    rw [← h.neg_mul_neg (q - p)]
    exact h.mul_self_le_mul_self hgap (h.le_trans hle (h.sub_le_neg_sub hp hq))

/-- A square is not further away than a point in it. -/
theorem Square.distanceSq_le (h : Isotone F) {s : Square F} {p q : Vec F}
    (hp : s.contains p = true) (hq : q.isFinite = true) :
    s.distanceSq q ≤ (q - p).lengthSq := by
  simp only [contains, Bool.and_eq_true, decide_eq_true_iff] at hp
  obtain ⟨⟨⟨hleft, hright⟩, habove⟩, hbelow⟩ := hp
  obtain ⟨hqx, hqy⟩ := Bool.and_eq_true_iff.mp hq
  obtain ⟨hx, hxle⟩ := h.gap_sq_le hqx hleft hright
  obtain ⟨hy, hyle⟩ := h.gap_sq_le hqy habove hbelow
  exact h.add_le_add (h.mul_self_nonneg hx) hxle (h.mul_self_nonneg hy) hyle

/-! ### Searches -/

namespace Quadtree

variable {points : List (Vec F)} {t : Quadtree F}

/-- Every square contains the points held in it or further inside. -/
def Encloses (t : Quadtree F) : Prop :=
  ∀ i slot b, t.slots[i]? = some slot → t.Holds i b → slot.cell.square.contains b.pos = true

/-- A search finds every point within reach. -/
theorem Encloses.mem_near (hencloses : t.Encloses) (h : Isotone F)
    (ht : ofPoints? points = some t) {p : Vec F} (hp : p.isFinite = true) {reach : F} {k : Nat}
    {pos : Vec F} (hk : points[k]? = some pos) (hwithin : (p - pos).lengthSq ≤ reach * reach) :
    k ∈ (t.near p reach).map (·.index) := by
  by_contra hmissed
  obtain ⟨-, i, slot, -, hslot, hheld, hfar⟩ :=
    ((near_of_points ht p reach).2.2.2 k pos hk).mp hmissed
  have hclose := Square.distanceSq_le h (hencloses i slot _ hslot hheld) hp
  exact (h.lt_iff.mp hfar).2.2 (h.le_trans hclose hwithin)

/-- In a tree that encloses its points, these are finite. -/
theorem Encloses.isFinite (hencloses : t.Encloses) (h : Isotone F)
    (ht : ofPoints? points = some t) {k : Nat} {pos : Vec F} (hk : points[k]? = some pos) :
    pos.isFinite = true := by
  have hspanned := (isSome_ofPoints?_iff h.toPreordered points).mp (Option.isSome_of_eq_some ht)
  obtain ⟨square, hfilled⟩ := filled_of_points ht
  obtain ⟨slot, hslot, -⟩ := hfilled.lies.exists_slot
  have hheld : t.Holds 0 ⟨k, pos⟩ := hfilled.lies.holds_iff.mpr (mem_bodiesOf_iff.mpr hk)
  have hin := hencloses 0 slot _ hslot hheld
  simp only [Square.contains, Bool.and_eq_true, decide_eq_true_iff] at hin
  obtain ⟨⟨⟨hleft, -⟩, habove⟩, -⟩ := hin
  have hmem : pos ∈ points := List.mem_of_getElem? hk
  rw [Vec.isFinite, Bool.and_eq_true]
  exact ⟨hspanned.1.2 _ (List.mem_map_of_mem hmem) (h.isNumber_of_le hleft).2,
    hspanned.2.2 _ (List.mem_map_of_mem hmem) (h.isNumber_of_le habove).2⟩

/-- Two nodes within reach of one another at the beginning of a round meet in it. -/
theorem Encloses.mem_pairs_meetings (hencloses : t.Encloses) (h : Isotone F) {b : Bodies F}
    (ht : ofPoints? (b.nodes.toList.map Node.ahead) = some t) (c : Collision F) {i j : Nat}
    {n m : Node F} (hi : b.nodes[i]? = some n) (hj : b.nodes[j]? = some m) (hlt : i < j)
    (hwithin : (n.ahead - m.ahead).lengthSq ≤ c.reach * c.reach) :
    (i, j) ∈ (c.meetings b).map Encounter.pair := by
  have hplace : ∀ {k : Nat} {node : Node F}, b.nodes[k]? = some node →
      (b.nodes.toList.map Node.ahead)[k]? = some node.ahead := fun hk => by
    rw [List.getElem?_map, Array.getElem?_toList, hk]
    rfl
  have hfinite := hencloses.isFinite h ht (hplace hi)
  exact c.mem_pairs_meetings ht hi hlt (hencloses.mem_near h ht hfinite (hplace hj) hwithin)

/-- **A search misses what lies in squares out of reach, and nothing that is within reach.**  It
finds points in the order in which a walk through all squares comes by them, none of them twice,
and it misses a point if and only if some square on the way from the root to the point, the root
and the leaf included, is further away than the reach.  If every square contains the points held
in it or further inside, then no point is missed whose distance is within the reach, as both are
computed.  A round of collisions comes to its encounters, and then any two nodes that are within
reach of one another when it begins, by where they are about to be, meet in it. -/
theorem near_complete {points : List (Vec Float32)} {t : Quadtree Float32}
    (ht : ofPoints? points = some t) :
    (∀ (p : Vec Float32) (reach : Float32),
      ((t.near p reach).map (·.index)).Nodup ∧
      (t.near p reach).Sublist (t.visits.flatMap (·.bodies)) ∧
      ∀ k pos, points[k]? = some pos → (k ∉ (t.near p reach).map (·.index) ↔
        ∃ depth i slot, t.Descends 0 depth i ∧ t.slots[i]? = some slot ∧ t.Holds i ⟨k, pos⟩ ∧
          reach * reach < slot.cell.square.distanceSq p)) ∧
    (t.Encloses → ∀ (p : Vec Float32) (reach : Float32), p.isFinite = true →
      ∀ k pos, points[k]? = some pos → (p - pos).lengthSq ≤ reach * reach →
        k ∈ (t.near p reach).map (·.index)) ∧
    (∀ (c : Collision Float32) (b : Bodies Float32), b.nodes.toList.map Node.ahead = points →
      c.round? b = some ((c.meetings b).foldl c.face b) ∧
      (t.Encloses → ∀ i j n m, i < j → b.nodes[i]? = some n → b.nodes[j]? = some m →
        (n.ahead - m.ahead).lengthSq ≤ c.reach * c.reach →
        (i, j) ∈ (c.meetings b).map Encounter.pair)) := by
  refine ⟨fun p reach => ?_, fun hencloses p reach hp k pos hk hwithin => ?_, ?_⟩
  · obtain ⟨hnodup, hsublist, -, hmissed⟩ := near_of_points ht p reach
    exact ⟨hnodup, hsublist, hmissed⟩
  · exact hencloses.mem_near Single.isotone ht hp hk hwithin
  · rintro c b rfl
    refine ⟨c.round?_of_some ht, fun hencloses i j n m hlt hi hj hwithin => ?_⟩
    exact hencloses.mem_pairs_meetings Single.isotone ht c hi hj hlt hwithin

/-- Squares enclose what they hold if those met from each of them do. -/
theorem encloses_of_within {points : List (Vec F)} {t : Quadtree F}
    (ht : ofPoints? points = some t)
    (hall : ∀ i < t.slots.size, ∀ slot ∈ t.slots[i]?,
      ∀ b ∈ t.within i, slot.cell.square.contains b.pos = true) : t.Encloses := by
  intro i slot b hslot hheld
  obtain ⟨square, hfilled⟩ := filled_of_points ht
  have hi : i < t.slots.size := (Array.getElem?_eq_some_iff.mp hslot).1
  exact hall i hi slot hslot b ((hfilled.mem_within_iff hi).mpr hheld)

/-- Three nodes of which two meet and the third is out of reach; each is at the border of a
square. -/
theorem near_complete_three :
    let b : Bodies Float32 := ⟨#[⟨"a", ⟨0, 0⟩, ⟨1, 1⟩, none⟩, ⟨"b", ⟨3, 1⟩, ⟨0, 0⟩, none⟩,
      ⟨"c", ⟨8, 8⟩, ⟨0, 0⟩, none⟩], .initial⟩
    let c : Collision Float32 := ⟨1, 1, 1⟩
    ∃ t, ofPoints? (b.nodes.toList.map Node.ahead) = some t ∧ t.Encloses ∧
      1 ∈ (t.near ⟨1, 1⟩ c.reach).map (·.index) ∧
      (∃ depth i slot, t.Descends 0 depth i ∧ t.slots[i]? = some slot ∧ t.Holds i ⟨2, ⟨8, 8⟩⟩ ∧
        c.reach * c.reach < slot.cell.square.distanceSq ⟨1, 1⟩) ∧
      (0, 1) ∈ (c.meetings b).map Encounter.pair := by
  intro b c
  have hsome : (ofPoints? (b.nodes.toList.map Node.ahead)).map (fun t =>
      ((List.range t.slots.size).all fun i => (t.slots[i]?).all fun slot =>
        (t.within i).all fun b => slot.cell.square.contains b.pos) &&
      decide (2 ∉ (t.near ⟨1, 1⟩ c.reach).map (·.index))) = some true := by
    decide +kernel
  obtain ⟨t, ht, hall⟩ := Option.map_eq_some_iff.mp hsome
  obtain ⟨hcontains, hmissed⟩ := Bool.and_eq_true_iff.mp hall
  have hencloses : t.Encloses := encloses_of_within ht fun i hi slot hslot b hb => by
    have hslots := List.all_eq_true.mp hcontains i (List.mem_range.mpr hi)
    rw [Option.mem_def.mp hslot] at hslots
    exact List.all_eq_true.mp hslots b hb
  obtain ⟨hwalk, hfound, hmeet⟩ := near_complete ht
  exact ⟨t, ht, hencloses,
    hfound hencloses ⟨1, 1⟩ c.reach (by decide +kernel) 1 _ rfl (by decide +kernel),
    ((hwalk ⟨1, 1⟩ c.reach).2.2 2 _ rfl).mp (of_decide_eq_true hmissed),
    (hmeet c b rfl).2 hencloses 0 1 _ _ Nat.one_pos rfl rfl (by decide +kernel)⟩

end Quadtree

end ForceDiagram
