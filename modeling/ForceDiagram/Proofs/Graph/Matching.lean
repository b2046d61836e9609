/-
ForceDiagram/Proofs/Graph/Matching.lean

The pass that flags edges, as a matching rank by rank.

`Nth xs a k p` says that position `p` holds the `k`-th `a` of `xs`, counted
from zero.  In these terms the edges that bow apart are known without running
the pass:

    Pairs ends p q

says that the edge at `p` bows forth and the later one at `q` bows back.  Edges
between two nodes pair with the edges of the same rank that run the other way,
and the self-loops of a node pair in twos.

Main results: the pass gives exactly the flags of this relation
(`fits_ofEnds`), the relation is a matching (`Pairs.right_unique`,
`Pairs.left_unique`), and it depends on the ends of edges only through which of
them are the same (`pairs_map_iff`).  The invariant of the pass is that the
positions taken so far are those whose partner has been passed.
-/
import ForceDiagram.Graph.Bow
import Mathlib.Data.List.Basic
import Mathlib.Data.Set.Function

namespace ForceDiagram

namespace Bow

/-! ### Ranks -/

section Ranks

variable {α : Type} [BEq α] {xs : List α} {a b : α} {j k p q : Nat}

/-- `Nth xs a k p`: position `p` holds the `k`-th `a` of `xs`. -/
def Nth (xs : List α) (a : α) (k p : Nat) : Prop :=
  xs[p]? = some a ∧ xs.countBefore a p = k

/-- What stands at a position has a rank there. -/
theorem nth_countBefore (h : xs[p]? = some a) : Nth xs a (xs.countBefore a p) p := ⟨h, rfl⟩

theorem Nth.value_unique (ha : Nth xs a j p) (hb : Nth xs b k p) : a = b ∧ j = k := by
  obtain rfl : a = b := Option.some.inj (ha.1.symm.trans hb.1)
  exact ⟨rfl, ha.2.symm.trans hb.2⟩

variable [LawfulBEq α]

theorem nth_iff_idxOfNth : Nth xs a k p ↔ k < xs.count a ∧ xs.idxOfNth a k = p := by
  constructor
  · rintro ⟨hp, rfl⟩
    obtain ⟨hlt, rfl⟩ := List.getElem?_eq_some_iff.mp hp
    exact ⟨List.countBefore_lt_count_getElem, List.idxOfNth_countBefore_getElem⟩
  · rintro ⟨hk, rfl⟩
    have hlt : xs.idxOfNth a k < xs.length := List.idxOfNth_lt_length_of_lt_count hk
    refine ⟨?_, List.countBefore_idxOfNth_of_lt_count hk⟩
    rw [List.getElem?_eq_getElem hlt, List.getElem_idxOfNth_eq]

theorem exists_nth_iff : (∃ p, Nth xs a k p) ↔ k < xs.count a := by
  constructor
  · rintro ⟨p, hp⟩
    exact (nth_iff_idxOfNth.mp hp).1
  · intro hk
    exact ⟨_, nth_iff_idxOfNth.mpr ⟨hk, rfl⟩⟩

/-- Ranks grow with positions. -/
theorem Nth.lt_iff (hp : Nth xs a j p) (hq : Nth xs a k q) : p < q ↔ j < k := by
  obtain ⟨hj, rfl⟩ := nth_iff_idxOfNth.mp hp
  obtain ⟨-, rfl⟩ := nth_iff_idxOfNth.mp hq
  exact List.idxOfNth_lt_idxOfNth_iff_of_lt_count hj

theorem Nth.position_unique (hp : Nth xs a k p) (hq : Nth xs a k q) : p = q := by
  rw [← (nth_iff_idxOfNth.mp hp).2, (nth_iff_idxOfNth.mp hq).2]

/-- Renaming values keeps the ranks of a value with which no other one is merged. -/
theorem nth_map_iff {β : Type} [BEq β] [LawfulBEq β] {f : α → β}
    (hf : ∀ b ∈ xs, f b = f a → b = a) : Nth (xs.map f) (f a) k p ↔ Nth xs a k p := by
  have hat : (xs.map f)[p]? = some (f a) ↔ xs[p]? = some a := by
    rw [List.getElem?_map, Option.map_eq_some_iff]
    constructor
    · rintro ⟨b, hb, hfb⟩
      rw [hb, hf b (List.mem_of_getElem? hb) hfb]
    · intro ha
      exact ⟨a, ha, rfl⟩
  have hcount : (xs.map f).countBefore (f a) p = xs.countBefore a p := by
    rw [List.countBefore_eq_count_take, List.countBefore_eq_count_take, ← List.map_take,
      List.count, List.count, List.countP_map]
    refine List.countP_congr fun b hb => ?_
    simp only [Function.comp_apply, beq_iff_eq]
    exact ⟨hf b (List.mem_of_mem_take hb), congrArg f⟩
  rw [Nth, Nth, hat, hcount]

end Ranks

/-! ### The matching -/

variable {α : Type} [DecidableEq α]

/-- `Pairs ends p q`: the edge at `p` and the later one at `q` bow apart. -/
inductive Pairs (ends : List (α × α)) (p q : Nat) : Prop
  | across {u v : α} {k : Nat} : u ≠ v → Nth ends (u, v) k p → Nth ends (v, u) k q →
      p < q → Pairs ends p q
  | loops {u : α} {k : Nat} : k % 2 = 0 → Nth ends (u, u) k p → Nth ends (u, u) (k + 1) q →
      Pairs ends p q

variable {ends : List (α × α)} {u v : α} {k p q r : Nat}

theorem Pairs.lt (h : Pairs ends p q) : p < q := by
  cases h with
  | across _ _ _ hlt => exact hlt
  | loops _ hp hq => exact (hp.lt_iff hq).mpr (Nat.lt_succ_self _)

/-- Partners run opposite ways. -/
theorem Pairs.reverse (h : Pairs ends p q) :
    ∃ u v, ends[p]? = some (u, v) ∧ ends[q]? = some (v, u) := by
  cases h with
  | across _ hp hq _ => exact ⟨_, _, hp.1, hq.1⟩
  | loops _ hp hq => exact ⟨_, _, hp.1, hq.1⟩

/-- An edge between two nodes has its later partner at its own rank. -/
theorem pairs_iff_of_ne (hne : u ≠ v) (hp : Nth ends (u, v) k p) :
    Pairs ends p q ↔ Nth ends (v, u) k q ∧ p < q := by
  constructor
  · rintro (⟨-, hp', hq, hlt⟩ | ⟨-, hp', -⟩)
    · obtain ⟨he, rfl⟩ := hp.value_unique hp'
      obtain ⟨rfl, rfl⟩ := Prod.mk.inj he
      exact ⟨hq, hlt⟩
    · obtain ⟨rfl, rfl⟩ := Prod.mk.inj (hp.value_unique hp').1
      exact absurd rfl hne
  · rintro ⟨hq, hlt⟩
    exact .across hne hp hq hlt

/-- An edge between two nodes has its earlier partner at its own rank. -/
theorem pairs_iff_of_ne' (hne : u ≠ v) (hq : Nth ends (u, v) k q) :
    Pairs ends p q ↔ Nth ends (v, u) k p ∧ p < q := by
  constructor
  · rintro (⟨-, hp, hq', hlt⟩ | ⟨-, -, hq'⟩)
    · obtain ⟨he, rfl⟩ := hq.value_unique hq'
      obtain ⟨rfl, rfl⟩ := Prod.mk.inj he
      exact ⟨hp, hlt⟩
    · obtain ⟨rfl, rfl⟩ := Prod.mk.inj (hq.value_unique hq').1
      exact absurd rfl hne
  · rintro ⟨hp, hlt⟩
    exact .across hne.symm hp hq hlt

/-- A self-loop of even rank has the next one as its later partner. -/
theorem pairs_iff_loop (hp : Nth ends (u, u) k p) :
    Pairs ends p q ↔ k % 2 = 0 ∧ Nth ends (u, u) (k + 1) q := by
  constructor
  · rintro (⟨hne, hp', -, -⟩ | ⟨heven, hp', hq⟩)
    · obtain ⟨rfl, rfl⟩ := Prod.mk.inj (hp.value_unique hp').1
      exact absurd rfl hne
    · obtain ⟨he, rfl⟩ := hp.value_unique hp'
      obtain ⟨rfl, -⟩ := Prod.mk.inj he
      exact ⟨heven, hq⟩
  · rintro ⟨heven, hq⟩
    exact .loops heven hp hq

/-- A self-loop of odd rank has the one before as its earlier partner. -/
theorem pairs_iff_loop' (hq : Nth ends (u, u) k q) :
    Pairs ends p q ↔ k % 2 = 1 ∧ Nth ends (u, u) (k - 1) p := by
  constructor
  · rintro (⟨hne, -, hq', -⟩ | ⟨heven, hp, hq'⟩)
    · obtain ⟨rfl, rfl⟩ := Prod.mk.inj (hq.value_unique hq').1
      exact absurd rfl hne
    · obtain ⟨he, rfl⟩ := hq.value_unique hq'
      obtain ⟨rfl, -⟩ := Prod.mk.inj he
      exact ⟨by omega, hp⟩
  · rintro ⟨hodd, hp⟩
    obtain ⟨j, rfl⟩ : ∃ j, k = j + 1 := ⟨k - 1, by omega⟩
    exact .loops (by omega) hp hq

theorem Pairs.right_unique (hq : Pairs ends p q) (hr : Pairs ends p r) : q = r := by
  cases hq with
  | across hne hp hq _ => exact hq.position_unique ((pairs_iff_of_ne hne hp).mp hr).1
  | loops _ hp hq => exact hq.position_unique ((pairs_iff_loop hp).mp hr).2

theorem Pairs.left_unique (hp : Pairs ends p r) (hq : Pairs ends q r) : p = q := by
  cases hp with
  | across hne hp hr _ => exact hp.position_unique ((pairs_iff_of_ne' hne.symm hr).mp hq).1
  | loops _ hp hr => exact hp.position_unique ((pairs_iff_loop' hr).mp hq).2

/-- No edge is the later one of one pair and the earlier one of another. -/
theorem Pairs.not_chain (hpq : Pairs ends p q) : ¬ Pairs ends q r := by
  intro hqr
  have hlt := hpq.lt
  have hlt' := hqr.lt
  cases hpq with
  | across hne hp hq _ =>
    have hr := ((pairs_iff_of_ne hne.symm hq).mp hqr).1
    obtain rfl := hp.position_unique hr
    omega
  | loops heven _ hq =>
    have hodd := ((pairs_iff_loop hq).mp hqr).1
    omega

/-! ### The flags of the matching -/

/-- `Fits ends p b`: the matching asks for the flag `b` at `p`. -/
def Fits (ends : List (α × α)) (p : Nat) : Bow → Prop
  | .back => ∃ q, Pairs ends q p
  | .straight => (¬ ∃ q, Pairs ends q p) ∧ ¬ ∃ q, Pairs ends p q
  | .forth => ∃ q, Pairs ends p q

theorem Fits.unique {b c : Bow} (hb : Fits ends p b) (hc : Fits ends p c) : b = c := by
  have hno : ∀ {q r}, Pairs ends q p → Pairs ends p r → False := fun h => h.not_chain
  cases b <;> cases c <;> simp only [Fits] at hb hc <;> grind

/-- The flag of an edge between two nodes, where one of its rank runs the other way. -/
theorem fits_of_ne (hne : u ≠ v) (hp : Nth ends (u, v) k p) (hq : Nth ends (v, u) k q) :
    p < q ∧ Fits ends p .forth ∨ q < p ∧ Fits ends p .back := by
  rcases Nat.lt_trichotomy p q with hlt | rfl | hlt
  · exact .inl ⟨hlt, q, .across hne hp hq hlt⟩
  · exact absurd (Prod.mk.inj (hp.value_unique hq).1).1 hne
  · exact .inr ⟨hlt, q, .across hne.symm hq hp hlt⟩

/-- The flag of an edge between two nodes, where none of its rank runs the other way. -/
theorem fits_straight_of_ne (hne : u ≠ v) (hp : Nth ends (u, v) k p)
    (hnone : ¬ ∃ q, Nth ends (v, u) k q) : Fits ends p .straight := by
  constructor
  · rintro ⟨q, h⟩
    exact hnone ⟨q, ((pairs_iff_of_ne' hne hp).mp h).1⟩
  · rintro ⟨q, h⟩
    exact hnone ⟨q, ((pairs_iff_of_ne hne hp).mp h).1⟩

/-- The flag of a self-loop, by its rank among the self-loops of its node. -/
theorem fits_loop (hp : Nth ends (u, u) k p) :
    Fits ends p (if k % 2 = 1 then .back
      else if k + 1 < ends.count (u, u) then .forth else .straight) := by
  split
  · next hodd =>
    obtain ⟨q, hq⟩ := exists_nth_iff.mpr
      (Nat.lt_of_le_of_lt (Nat.sub_le k 1) (exists_nth_iff.mp ⟨p, hp⟩))
    exact ⟨q, (pairs_iff_loop' hp).mpr ⟨hodd, hq⟩⟩
  · next heven =>
    split
    · next hmore =>
      obtain ⟨q, hq⟩ := exists_nth_iff.mpr hmore
      exact ⟨q, (pairs_iff_loop hp).mpr ⟨by omega, hq⟩⟩
    · next hlast =>
      constructor
      · rintro ⟨q, h⟩
        exact heven ((pairs_iff_loop' hp).mp h).1
      · rintro ⟨q, h⟩
        exact hlast (exists_nth_iff.mp ⟨q, ((pairs_iff_loop hp).mp h).2⟩)

/-- Of two edges that run opposite ways at least one bows. -/
theorem not_fits_straight_both (hpq : p ≠ q) (hp : ends[p]? = some (u, v))
    (hq : ends[q]? = some (v, u)) : ¬ (Fits ends p .straight ∧ Fits ends q .straight) := by
  rintro ⟨⟨hp₁, hp₂⟩, hq₁, hq₂⟩
  have hp := nth_countBefore hp
  have hq := nth_countBefore hq
  by_cases hne : u = v
  · subst hne
    -- the earlier of the two is not the last self-loop, so it has a rank after it
    have later : ∀ {i j : Nat}, Nth ends (u, u) (ends.countBefore (u, u) i) i → i < j →
        Nth ends (u, u) (ends.countBefore (u, u) j) j →
        (∃ r, Pairs ends r i) ∨ ∃ r, Pairs ends i r := by
      intro i j hi hij hj
      have hrank := (hi.lt_iff hj).mp hij
      have hfit := fits_loop hi
      rw [if_pos (Nat.lt_of_le_of_lt hrank (exists_nth_iff.mp ⟨j, hj⟩))] at hfit
      split at hfit
      · exact .inl hfit
      · exact .inr hfit
    rcases Nat.lt_or_gt_of_ne hpq with hlt | hlt
    · exact (later hp hlt hq).elim hp₁ hp₂
    · exact (later hq hlt hp).elim hq₁ hq₂
  · -- of two ranks the smaller one occurs on both sides
    have paired : ∀ {x y : α} {i j : Nat}, x ≠ y →
        Nth ends (x, y) (ends.countBefore (x, y) i) i →
        Nth ends (y, x) (ends.countBefore (y, x) j) j →
        ends.countBefore (x, y) i ≤ ends.countBefore (y, x) j →
        (∃ r, Pairs ends r i) ∨ ∃ r, Pairs ends i r := by
      intro x y i j hxy hi hj hle
      obtain ⟨r, hr⟩ := exists_nth_iff.mpr (Nat.lt_of_le_of_lt hle (exists_nth_iff.mp ⟨j, hj⟩))
      rcases fits_of_ne hxy hi hr with ⟨-, h⟩ | ⟨-, h⟩
      · exact .inr h
      · exact .inl h
    rcases Nat.le_total (ends.countBefore (u, v) p) (ends.countBefore (v, u) q) with hle | hle
    · exact (paired hne hp hq hle).elim hp₁ hp₂
    · exact (paired (Ne.symm hne) hq hp hle).elim hq₁ hq₂

/-! ### Renaming the ends -/

section Renaming

variable {β : Type} [DecidableEq β] {g : α → β} {s : Set α}

theorem nth_map_ends_iff (hends : ∀ e ∈ ends, e.1 ∈ s ∧ e.2 ∈ s) (hg : Set.InjOn g s)
    (hu : u ∈ s) (hv : v ∈ s) :
    Nth (ends.map (Prod.map g g)) (g u, g v) k p ↔ Nth ends (u, v) k p := by
  refine nth_map_iff (a := (u, v)) (f := Prod.map g g) ?_
  rintro ⟨c, d⟩ hmem heq
  obtain ⟨hc, hd⟩ := Prod.mk.inj heq
  exact Prod.ext (hg (hends _ hmem).1 hu hc) (hg (hends _ hmem).2 hv hd)

/-- The matching sees only which ends are the same. -/
theorem pairs_map_iff (hends : ∀ e ∈ ends, e.1 ∈ s ∧ e.2 ∈ s) (hg : Set.InjOn g s) :
    Pairs (ends.map (Prod.map g g)) p q ↔ Pairs ends p q := by
  -- an edge with renamed ends is a renamed edge
  have origin : ∀ {u' v' k p}, Nth (ends.map (Prod.map g g)) (u', v') k p →
      ∃ u ∈ s, ∃ v ∈ s, u' = g u ∧ v' = g v := by
    intro u' v' k p h
    obtain ⟨⟨u, v⟩, hmem, heq⟩ := List.mem_map.mp (List.mem_of_getElem? h.1)
    obtain ⟨rfl, rfl⟩ := Prod.mk.inj heq
    exact ⟨u, (hends _ hmem).1, v, (hends _ hmem).2, rfl, rfl⟩
  constructor
  · rintro (⟨hne, hp, hq, hlt⟩ | ⟨heven, hp, hq⟩)
    · obtain ⟨u, hu, v, hv, rfl, rfl⟩ := origin hp
      exact .across (fun h => hne (congrArg g h)) ((nth_map_ends_iff hends hg hu hv).mp hp)
        ((nth_map_ends_iff hends hg hv hu).mp hq) hlt
    · obtain ⟨u, hu, -, -, rfl, -⟩ := origin hp
      exact .loops heven ((nth_map_ends_iff hends hg hu hu).mp hp)
        ((nth_map_ends_iff hends hg hu hu).mp hq)
  · rintro (⟨hne, hp, hq, hlt⟩ | ⟨heven, hp, hq⟩)
    · obtain ⟨hu, hv⟩ := hends _ (List.mem_of_getElem? hp.1)
      exact .across (fun h => hne (hg hu hv h)) ((nth_map_ends_iff hends hg hu hv).mpr hp)
        ((nth_map_ends_iff hends hg hv hu).mpr hq) hlt
    · obtain ⟨hu, -⟩ := hends _ (List.mem_of_getElem? hp.1)
      exact .loops heven ((nth_map_ends_iff hends hg hu hu).mpr hp)
        ((nth_map_ends_iff hends hg hu hu).mpr hq)

theorem fits_map_iff (hends : ∀ e ∈ ends, e.1 ∈ s ∧ e.2 ∈ s) (hg : Set.InjOn g s) (b : Bow) :
    Fits (ends.map (Prod.map g g)) p b ↔ Fits ends p b := by
  cases b <;> simp only [Fits, pairs_map_iff hends hg]

end Renaming

/-! ### The pass -/

/-- `Taken ends i taken`: what the pass has taken when it comes to `i`. -/
def Taken (ends : List Ends) (i : Nat) (taken : List Nat) : Prop :=
  ∀ q, q ∈ taken ↔ ∃ p < i, Pairs ends p q

section Pass

variable {ends : List Ends} {taken : List Nat} {e : Ends} {i q : Nat}

theorem partner?_eq_some_iff :
    partner? taken e ((ends.drop i).zipIdx i) = some q ↔
      i ≤ q ∧ ends[q]? = some e.swap ∧ q ∉ taken ∧
        ∀ r, i ≤ r → r < q → ends[r]? = some e.swap → r ∈ taken := by
  simp only [partner?, Option.map_eq_some_iff, List.find?_eq_some_iff_getElem]
  constructor
  · rintro ⟨⟨a, q'⟩, ⟨hfree, j, hj, hget, hfirst⟩, rfl⟩
    simp only [List.getElem_zipIdx, List.getElem_drop, Prod.mk.injEq] at hget
    obtain ⟨rfl, rfl⟩ := hget
    simp only [Bool.and_eq_true, beq_iff_eq, Bool.not_eq_true', List.contains_eq_mem,
      decide_eq_false_iff_not] at hfree
    refine ⟨by omega, ?_, hfree.2, ?_⟩
    · rw [← hfree.1]
      exact List.getElem?_eq_getElem _
    · intro r hir hrq hr
      have h := hfirst (r - i) (by omega)
      obtain ⟨hlt, hr⟩ := List.getElem?_eq_some_iff.mp hr
      simp only [List.getElem_zipIdx, List.getElem_drop, Nat.add_sub_cancel' hir, hr] at h
      simpa using h
  · rintro ⟨hiq, hq, hfree, hfirst⟩
    obtain ⟨hlt, hget⟩ := List.getElem?_eq_some_iff.mp hq
    refine ⟨(e.swap, q), ⟨by simpa using hfree, q - i, by simp; omega, ?_, ?_⟩, rfl⟩
    · simp only [List.getElem_zipIdx, List.getElem_drop, Nat.add_sub_cancel' hiq, hget]
    · intro j hj
      simp only [List.getElem_zipIdx, List.getElem_drop]
      have hat : i + j < ends.length := by omega
      by_cases h : ends[i + j] = e.swap
      · have hmem := hfirst (i + j) (by omega) (by omega) (by rw [List.getElem?_eq_getElem hat, h])
        simp [hmem]
      · simp [h]

/-- An edge that is not taken has a later partner if any later edge that runs the
other way is free. -/
theorem exists_pairs_of_free {u v : Nat} (ht : Taken ends i taken) (hi : ends[i]? = some (u, v))
    (hfree : i ∉ taken) (hlt : i < q) (hq : ends[q]? = some (v, u)) (hqfree : q ∉ taken) :
    ∃ r, Pairs ends i r := by
  have hi := nth_countBefore hi
  have hq := nth_countBefore hq
  by_cases hne : u = v
  · subst hne
    -- the next self-loop comes no later than the free one
    have hrank := (hi.lt_iff hq).mp hlt
    obtain ⟨r, hr⟩ := exists_nth_iff.mpr
      (Nat.lt_of_le_of_lt hrank (exists_nth_iff.mp ⟨q, hq⟩))
    refine ⟨r, (pairs_iff_loop hi).mpr ⟨?_, hr⟩⟩
    by_contra hodd
    obtain ⟨p, hp⟩ := exists_nth_iff.mpr
      (Nat.lt_of_le_of_lt (Nat.sub_le _ 1) (exists_nth_iff.mp ⟨i, hi⟩))
    have hpi := (pairs_iff_loop' hi).mpr ⟨by omega, hp⟩
    exact hfree ((ht i).mpr ⟨p, hpi.lt, hpi⟩)
  · -- an edge of smaller rank would have been taken from before `i`
    have hrank : ends.countBefore (u, v) i ≤ ends.countBefore (v, u) q := by
      by_contra hsmall
      obtain ⟨p, hp⟩ := exists_nth_iff.mpr
        (Nat.lt_trans (Nat.not_le.mp hsmall) (exists_nth_iff.mp ⟨i, hi⟩))
      have hpi : p < i := (hp.lt_iff hi).mpr (Nat.not_le.mp hsmall)
      exact hqfree ((ht q).mpr ⟨p, hpi, .across hne hp hq (Nat.lt_trans hpi hlt)⟩)
    obtain ⟨r, hr⟩ := exists_nth_iff.mpr
      (Nat.lt_of_le_of_lt hrank (exists_nth_iff.mp ⟨q, hq⟩))
    rcases Nat.lt_trichotomy i r with hir | rfl | hri
    · exact ⟨r, .across hne hi hr hir⟩
    · exact absurd (Prod.mk.inj (hi.value_unique hr).1).1 hne
    · exact absurd ((ht i).mpr ⟨r, hri, .across (Ne.symm hne) hr hi hri⟩) hfree

/-- Every free edge between an edge and its later partner has been taken. -/
theorem mem_taken_of_between {r : Nat} (ht : Taken ends i taken) (hiq : Pairs ends i q)
    (hir : i < r) (hrq : r < q) (hr : ends[r]? = ends[q]?) : r ∈ taken := by
  cases hiq with
  | across hne hi hq _ =>
    have hr := nth_countBefore (hr.trans hq.1)
    have hrank := (hr.lt_iff hq).mp hrq
    obtain ⟨p, hp⟩ := exists_nth_iff.mpr (Nat.lt_trans hrank (exists_nth_iff.mp ⟨i, hi⟩))
    have hpi : p < i := (hp.lt_iff hi).mpr hrank
    exact (ht r).mpr ⟨p, hpi, .across hne hp hr (Nat.lt_trans hpi hir)⟩
  | loops _ hi hq =>
    have hr := nth_countBefore (hr.trans hq.1)
    have hafter := (hi.lt_iff hr).mp hir
    have hbefore := (hr.lt_iff hq).mp hrq
    omega

/-- The search finds the partner in the matching. -/
theorem partner?_eq_some_iff_pairs (ht : Taken ends i taken) (hi : ends[i]? = some e)
    (hfree : i ∉ taken) :
    partner? taken e ((ends.drop (i + 1)).zipIdx (i + 1)) = some q ↔ Pairs ends i q := by
  have complete : ∀ {q}, Pairs ends i q →
      partner? taken e ((ends.drop (i + 1)).zipIdx (i + 1)) = some q := by
    intro q hiq
    obtain ⟨u, v, hi', hq⟩ := hiq.reverse
    obtain rfl := Option.some.inj (hi.symm.trans hi')
    refine partner?_eq_some_iff.mpr ⟨hiq.lt, hq, ?_, ?_⟩
    · intro hmem
      obtain ⟨p, hpi, hpq⟩ := (ht q).mp hmem
      exact absurd (hpq.left_unique hiq) (Nat.ne_of_lt hpi)
    · intro r hir hrq hr
      exact mem_taken_of_between ht hiq hir hrq (hr.trans hq.symm)
  refine ⟨fun hfound => ?_, complete⟩
  obtain ⟨hlt, hq, hqfree, -⟩ := partner?_eq_some_iff.mp hfound
  obtain ⟨r, hir⟩ := exists_pairs_of_free ht hi hfree hlt hq hqfree
  obtain rfl := Option.some.inj (hfound.symm.trans (complete hir))
  exact hir

/-- One step of the pass keeps the invariant. -/
theorem Taken.step {next : List Nat} (ht : Taken ends i taken)
    (hnext : ∀ q, q ∈ next ↔ Pairs ends i q ∨ q ∈ taken) : Taken ends (i + 1) next := by
  intro q
  rw [hnext q, ht q]
  constructor
  · rintro (hiq | ⟨p, hpi, hpq⟩)
    · exact ⟨i, Nat.lt_succ_self i, hiq⟩
    · exact ⟨p, Nat.lt_succ_of_lt hpi, hpq⟩
  · rintro ⟨p, hp, hpq⟩
    rcases Nat.lt_succ_iff_lt_or_eq.mp hp with hpi | rfl
    · exact .inr ⟨p, hpi, hpq⟩
    · exact .inl hpq

theorem fits_assign (rest : List Ends) (i : Nat) (taken : List Nat) (hrest : ends.drop i = rest)
    (ht : Taken ends i taken) (j : Nat) (b : Bow)
    (hb : (assign taken (rest.zipIdx i))[j]? = some b) : Fits ends (i + j) b := by
  induction rest generalizing i taken j with
  | nil => simp [assign] at hb
  | cons e later ih =>
    have hi : ends[i]? = some e := by
      rw [← List.head?_drop, hrest, List.head?_cons]
    have hlater : ends.drop (i + 1) = later := by
      rw [← List.tail_drop, hrest, List.tail_cons]
    -- what follows the head is flagged by the pass from `i + 1` on
    have tail : ∀ next, Taken ends (i + 1) next →
        ∀ j, (assign next (later.zipIdx (i + 1)))[j]? = some b → Fits ends (i + (j + 1)) b := by
      intro next hnext j hj
      have h := ih (i + 1) next hlater hnext j hj
      rwa [Nat.add_assoc, Nat.add_comm 1 j] at h
    rw [List.zipIdx_cons, assign] at hb
    split at hb
    · -- the edge has been taken: an earlier one is its partner
      next hmem =>
      have hmem : i ∈ taken := by simpa using hmem
      obtain ⟨p, -, hpi⟩ := (ht i).mp hmem
      cases j with
      | zero =>
        obtain rfl : Bow.back = b := by simpa using hb
        exact ⟨p, hpi⟩
      | succ j =>
        refine tail taken (ht.step fun q => ?_) j (by simpa using hb)
        simp [hpi.not_chain]
    · next hmem =>
      have hfree : i ∉ taken := by simpa using hmem
      have hpartner := fun q => partner?_eq_some_iff_pairs (q := q) ht hi hfree
      rw [hlater] at hpartner
      split at hb
      · -- the edge is free and takes its partner
        next q hq =>
        have hiq : Pairs ends i q := (hpartner q).mp hq
        cases j with
        | zero =>
          obtain rfl : Bow.forth = b := by simpa using hb
          exact ⟨q, hiq⟩
        | succ j =>
          refine tail (q :: taken) (ht.step fun r => ?_) j (by simpa using hb)
          rw [List.mem_cons]
          refine or_congr_left ⟨?_, fun hir => hir.right_unique hiq⟩
          rintro rfl
          exact hiq
      · -- the edge is free and stays alone
        next hnone =>
        have hno : ∀ q, ¬ Pairs ends i q := by
          intro q hiq
          rw [(hpartner q).mpr hiq] at hnone
          cases hnone
        cases j with
        | zero =>
          obtain rfl : Bow.straight = b := by simpa using hb
          constructor
          · rintro ⟨p, hpi⟩
            exact hfree ((ht i).mpr ⟨p, hpi.lt, hpi⟩)
          · rintro ⟨q, hiq⟩
            exact hno q hiq
        | succ j =>
          refine tail taken (ht.step fun q => ?_) j (by simpa using hb)
          simp [hno q]

/-- **The pass gives the flags of the matching.** -/
theorem fits_ofEnds {p : Nat} {b : Bow} (hb : (ofEnds ends)[p]? = some b) : Fits ends p b := by
  have hstart : Taken ends 0 [] := by simp [Taken]
  have h := fits_assign ends 0 [] List.drop_zero hstart p b hb
  rwa [Nat.zero_add] at h

example : ofEnds [(0, 1), (2, 2), (0, 1), (1, 0), (2, 2), (2, 2)] =
    [.forth, .forth, .straight, .back, .back, .straight] := by decide

end Pass

end Bow

end ForceDiagram
