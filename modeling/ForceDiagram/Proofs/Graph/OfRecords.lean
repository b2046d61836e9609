/-
ForceDiagram/Proofs/Graph/OfRecords.lean

The graph of a dataset, link by link.

A record's ends are names, a link's ends are numbers, and the numbers stand for
the names without merging two of them (`injOn_idxOf`).  What holds of
links and does not ask which numbers they carry can therefore be said of the
records.

Main result: the flags of the links are those of the matching of the records
(`bow_ofRecords_by_rank`).
-/
import ForceDiagram.Graph.Basic
import ForceDiagram.Proofs.Graph.Matching

namespace ForceDiagram

variable {F : Type} [Scalar F]

/-- The names at the two ends. -/
def Record.ends (r : Record) : String × String := (r.source, r.target)

/-! ### First occurrences -/

section FirstOccurrences

variable {α : Type} [BEq α] [LawfulBEq α]

theorem idxOf_lt_of_filter {p : α → Bool} {as : List α} {x y : α} (hx : p x = true)
    (hy : p y = true) (h : (as.filter p).idxOf x < (as.filter p).idxOf y) :
    as.idxOf x < as.idxOf y := by
  induction as with
  | nil => exact h
  | cons a as ih =>
    rw [List.idxOf_cons, List.idxOf_cons]
    rcases hp : p a with - | -
    · have hax : (a == x) = false := by grind
      have hay : (a == y) = false := by grind
      rw [List.filter_cons_of_neg (by simp [hp])] at h
      simpa [hax, hay] using ih h
    · rw [List.filter_cons_of_pos hp, List.idxOf_cons, List.idxOf_cons] at h
      rcases hax : a == x with - | -
      · rcases hay : a == y with - | -
        · simp only [hax, hay, cond_false, Nat.add_lt_add_iff_right] at h ⊢
          exact ih h
        · simp [hax, hay] at h
      · rcases hay : a == y with - | -
        · simp
        · simp [hax, hay] at h

/-- Repetitions are taken out in favour of the first occurrence. -/
theorem pairwise_idxOf_eraseDups (as : List α) :
    as.eraseDups.Pairwise fun x y => as.idxOf x < as.idxOf y := by
  induction hlen : as.length using Nat.strong_induction_on generalizing as with
  | _ len ih =>
    cases as with
    | nil => exact List.Pairwise.nil
    | cons a as =>
      have hshort : (as.filter fun b => !(b == a)).length < len := by
        rw [← hlen]
        exact Nat.lt_succ_of_le (List.length_filter_le _ _)
      have hother : ∀ x ∈ (as.filter fun b => !(b == a)).eraseDups, (!(x == a)) = true :=
        fun x hx => (List.mem_filter.mp (List.mem_eraseDups.mp hx)).2
      have hidx : ∀ x ∈ (as.filter fun b => !(b == a)).eraseDups,
          (a :: as).idxOf x = as.idxOf x + 1 := by
        intro x hx
        have hne : (a == x) = false := by
          have hxa := hother x hx
          grind
        rw [List.idxOf_cons, hne]
        rfl
      rw [List.eraseDups_cons, List.pairwise_cons]
      refine ⟨fun x hx => ?_, ?_⟩
      · rw [hidx x hx, List.idxOf_cons_self]
        exact Nat.succ_pos _
      · refine (ih _ hshort _ rfl).imp_of_mem fun {x y} hx hy hlt => ?_
        rw [hidx x hx, hidx y hy]
        exact Nat.succ_lt_succ (idxOf_lt_of_filter (hother x hx) (hother y hy) hlt)

end FirstOccurrences

namespace Graph

/-! ### Names -/

/-- The names that records mention, a record's source before its target. -/
def mentions (records : List Record) : List String :=
  records.flatMap fun r => [r.source, r.target]

/-- Names that are all those mentioned, each once, by first mention. -/
structure ByFirstMention (names mentioned : List String) : Prop where
  mem : ∀ x, x ∈ names ↔ x ∈ mentioned
  order : names.Pairwise fun x y => mentioned.idxOf x < mentioned.idxOf y

theorem byFirstMention_namesOf (records : List Record) :
    ByFirstMention (namesOf records) (mentions records) where
  mem _ := List.mem_eraseDups
  order := pairwise_idxOf_eraseDups (mentions records)

/-- A name is among the names of the nodes iff a record mentions it. -/
theorem mem_namesOf {records : List Record} {name : String} :
    name ∈ namesOf records ↔ ∃ r ∈ records, name = r.source ∨ name = r.target := by
  simp [namesOf, List.mem_eraseDups]

theorem source_mem_namesOf {records : List Record} {r : Record} (h : r ∈ records) :
    r.source ∈ namesOf records := mem_namesOf.mpr ⟨r, h, .inl rfl⟩

theorem target_mem_namesOf {records : List Record} {r : Record} (h : r ∈ records) :
    r.target ∈ namesOf records := mem_namesOf.mpr ⟨r, h, .inr rfl⟩

/-- Different names have different numbers. -/
theorem injOn_idxOf (names : List String) : Set.InjOn names.idxOf {x | x ∈ names} := by
  intro a ha b _ hab
  exact (List.idxOf_inj ha).mp hab

theorem map_endsOf (names : List String) (records : List Record) :
    records.map (endsOf names) =
      (records.map Record.ends).map (Prod.map names.idxOf names.idxOf) := by
  rw [List.map_map]
  rfl

theorem ends_mem_namesOf {records : List Record} {e : String × String}
    (h : e ∈ records.map Record.ends) : e.1 ∈ namesOf records ∧ e.2 ∈ namesOf records := by
  obtain ⟨r, hr, rfl⟩ := List.mem_map.mp h
  exact ⟨source_mem_namesOf hr, target_mem_namesOf hr⟩

/-! ### Links -/

/-- The flags of a dataset's links. -/
def bowsOf (records : List Record) : List Bow :=
  Bow.ofEnds (records.map (endsOf (namesOf records)))

@[simp] theorem length_bowsOf (records : List Record) :
    (bowsOf records).length = records.length := by
  simp [bowsOf]

/-- The link of one record, once its flag is known. -/
def linkOf (names : List String) (r : Record) (bow : Bow) : Link F :=
  ⟨names.idxOf r.source, names.idxOf r.target, .ofLabel r.kind, bow, .zero⟩

theorem links_ofRecords (records : List Record) :
    (ofRecords records : Graph F).links.toList =
      records.zipWith (linkOf (namesOf records)) (bowsOf records) := by
  have unzip : ∀ (names : List String) (rs : List Record) (bows : List Bow),
      (rs.zip ((rs.map (endsOf names)).zip bows)).map
          (fun r => (⟨r.2.1.1, r.2.1.2, .ofLabel r.1.kind, r.2.2, .zero⟩ : Link F)) =
        rs.zipWith (linkOf names) bows := by
    intro names rs
    induction rs with
    | nil => intro bows; rfl
    | cons r rs ih =>
      intro bows
      cases bows with
      | nil => rfl
      | cons b bows => simp [ih, linkOf, endsOf]
  exact unzip _ records _

theorem size_links_ofRecords (records : List Record) :
    (ofRecords records : Graph F).links.size = records.length := by
  rw [← Array.length_toList, links_ofRecords, List.length_zipWith, length_bowsOf, Nat.min_self]

theorem getElem?_links_ofRecords {records : List Record} {p : Nat} {l : Link F} :
    (ofRecords records : Graph F).links[p]? = some l ↔
      ∃ r b, records[p]? = some r ∧ (bowsOf records)[p]? = some b ∧
        linkOf (namesOf records) r b = l := by
  rw [← Array.getElem?_toList, links_ofRecords, List.getElem?_zipWith_eq_some]

/-- A position holds a flag iff it holds a record and the matching of the records
asks for that flag. -/
theorem getElem?_bowsOf {records : List Record} {p : Nat} {b : Bow} :
    (bowsOf records)[p]? = some b ↔
      p < records.length ∧ Bow.Fits (records.map Record.ends) p b := by
  have hfits : ∀ {c}, (bowsOf records)[p]? = some c →
      Bow.Fits (records.map Record.ends) p c := by
    intro c hc
    have h := Bow.fits_ofEnds hc
    rw [map_endsOf] at h
    exact (Bow.fits_map_iff (fun e he => ends_mem_namesOf he) (injOn_idxOf _) c).mp h
  constructor
  · intro hb
    have hlt := (List.getElem?_eq_some_iff.mp hb).1
    exact ⟨by simpa using hlt, hfits hb⟩
  · rintro ⟨hlt, hb⟩
    have hlt : p < (bowsOf records).length := by simpa using hlt
    have hc := List.getElem?_eq_getElem hlt
    rw [hc, (hfits hc).unique hb]

/-- The flag of the link at a position. -/
def bowAt (g : Graph F) (p : Nat) : Option Bow := g.links[p]?.map (·.bow)

theorem bowAt_ofRecords {records : List Record} {p : Nat} {b : Bow} :
    (ofRecords records : Graph F).bowAt p = some b ↔
      p < records.length ∧ Bow.Fits (records.map Record.ends) p b := by
  rw [← getElem?_bowsOf, bowAt, Option.map_eq_some_iff]
  constructor
  · rintro ⟨l, hl, rfl⟩
    obtain ⟨r, b, -, hb, rfl⟩ := getElem?_links_ofRecords.mp hl
    exact hb
  · intro hb
    have hlt : p < records.length := by simpa using (List.getElem?_eq_some_iff.mp hb).1
    exact ⟨_, getElem?_links_ofRecords.mpr ⟨_, _, List.getElem?_eq_getElem hlt, hb, rfl⟩, rfl⟩

open Bow in
/-- **The flags of a dataset's links, rank by rank.**  The edge at `p` from `u` to
`v` that has `k` like it before it bows forth if the `k`-th edge from `v` to `u`
comes later, back if that one comes earlier, and not at all if there is none.
Self-loops bow in twos.  So the flags are a matching: `Pairs` joins every link
that bows forth to exactly one later link that runs the other way and bows back,
reaches every link that bows back in this way, and leaves no two links that run
opposite ways straight. -/
theorem bow_ofRecords_by_rank (records : List Record) :
    let ends := records.map Record.ends
    let bow := (ofRecords records : Graph F).bowAt
    (∀ p u v, u ≠ v → ends[p]? = some (u, v) →
      (∀ q, Nth ends (v, u) (ends.countBefore (u, v) p) q →
        p < q ∧ bow p = some .forth ∨ q < p ∧ bow p = some .back) ∧
      ((¬ ∃ q, Nth ends (v, u) (ends.countBefore (u, v) p) q) → bow p = some .straight)) ∧
    (∀ p u k, Nth ends (u, u) k p →
      bow p = some (if k % 2 = 1 then .back
        else if k + 1 < ends.count (u, u) then .forth else .straight)) ∧
    (∀ p, bow p = some .forth → ∃! q, Pairs ends p q) ∧
    (∀ q, bow q = some .back → ∃! p, Pairs ends p q) ∧
    (∀ p q, Pairs ends p q → p < q ∧ bow p = some .forth ∧ bow q = some .back ∧
      ∃ u v, ends[p]? = some (u, v) ∧ ends[q]? = some (v, u)) ∧
    (∀ p q u v, p ≠ q → ends[p]? = some (u, v) → ends[q]? = some (v, u) →
      ¬ (bow p = some .straight ∧ bow q = some .straight)) := by
  intro ends bow
  have hbow : ∀ {p e b}, ends[p]? = some e → Fits ends p b → bow p = some b := by
    intro p e b hp hb
    have hlt := (List.getElem?_eq_some_iff.mp hp).1
    exact bowAt_ofRecords.mpr ⟨by simpa [ends] using hlt, hb⟩
  have hfits : ∀ {p b}, bow p = some b → Fits ends p b := fun hb => (bowAt_ofRecords.mp hb).2
  refine ⟨?_, ?_, ?_, ?_, ?_, ?_⟩
  · intro p u v hne hp
    have hrank := nth_countBefore hp
    refine ⟨fun q hq => ?_, fun hnone => hbow hp (fits_straight_of_ne hne hrank hnone)⟩
    exact (fits_of_ne hne hrank hq).imp (And.imp_right (hbow hp)) (And.imp_right (hbow hp))
  · intro p u k hp
    exact hbow hp.1 (fits_loop hp)
  · intro p hp
    obtain ⟨q, hq⟩ := hfits hp
    exact ⟨q, hq, fun r hr => hr.right_unique hq⟩
  · intro q hq
    obtain ⟨p, hp⟩ := hfits hq
    exact ⟨p, hp, fun r hr => hr.left_unique hp⟩
  · intro p q hpq
    obtain ⟨u, v, hp, hq⟩ := hpq.reverse
    exact ⟨hpq.lt, hbow hp ⟨q, hpq⟩, hbow hq ⟨p, hpq⟩, u, v, hp, hq⟩
  · rintro p q u v hpq hp hq ⟨hps, hqs⟩
    exact not_fits_straight_both hpq hp hq ⟨hfits hps, hfits hqs⟩

end Graph

end ForceDiagram
