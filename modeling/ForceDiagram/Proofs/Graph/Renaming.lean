/-
ForceDiagram/Proofs/Graph/Renaming.lean

Datasets that differ in names and types only, and their graphs.

A `Renaming` gives every name another one and every record another type, the type
by the record's number, so that two records of one type may get different ones.
Nodes are numbered by the first mention of their names; as long as no two names in
use become one, first mentions stay where they are, and the graph of the changed
dataset is the changed graph (`ofRecords_renamed`): the same numbers at the ends of
links, and so the same flags.
-/
import ForceDiagram.Proofs.Arrays
import ForceDiagram.Proofs.Force.Renaming
import ForceDiagram.Proofs.Graph.OfRecords

namespace ForceDiagram

variable {F : Type} [Scalar F]

/-- Another name for every name, and another type for every record by its number. -/
structure Renaming where
  name : String → String
  kind : Nat → String

namespace Renaming

variable (r : Renaming)

/-- The changed record. -/
def record (k : Nat) (e : Record) : Record := ⟨r.name e.source, r.name e.target, r.kind k⟩

/-- The changed dataset. -/
def records (records : List Record) : List Record := records.mapIdx r.record

/-- The names that a dataset mentions stay apart. -/
def KeepsApart (records : List Record) : Prop :=
  Set.InjOn r.name {x | ∃ e ∈ records, x = e.source ∨ x = e.target}

/-- The link under the type of its number. -/
def link (k : Nat) (l : Link F) : Link F := { l with kind := .ofLabel (r.kind k) }

/-- The graph with other names and types. -/
def graph (g : Graph F) : Graph F :=
  { g with
    nodes := g.nodes.map (Node.renamed r.name)
    links := g.links.mapIdx r.link }

end Renaming

/-! ### Lists under an injective change -/

section Lists

variable {α β : Type} [BEq α] [LawfulBEq α] [BEq β] [LawfulBEq β]

/-- A first occurrence stays one. -/
theorem eraseDups_map_of_injOn {f : α → β} (as : List α) (hf : Set.InjOn f {a | a ∈ as}) :
    (as.map f).eraseDups = as.eraseDups.map f := by
  -- what stands behind the first element is searched without its repetitions, so the
  -- induction is on the length
  induction hlen : as.length using Nat.strong_induction_on generalizing as with
  | _ len ih =>
    cases as with
    | nil => rfl
    | cons a as =>
      have hsame : ∀ b ∈ as, (!(f b == f a)) = !(b == a) := by
        intro b hb
        rw [Bool.not_inj_iff, Bool.eq_iff_iff, beq_iff_eq, beq_iff_eq]
        exact hf.eq_iff (List.mem_cons_of_mem _ hb) List.mem_cons_self
      have hfilter : (as.map f).filter (fun b => !(b == f a)) =
          (as.filter fun b => !(b == a)).map f := by
        rw [List.filter_map]
        exact congrArg (List.map f) (List.filter_congr hsame)
      have hshort : (as.filter fun b => !(b == a)).length < len := by
        rw [← hlen]
        exact Nat.lt_succ_of_le (List.length_filter_le _ _)
      have hinj : Set.InjOn f {b | b ∈ as.filter fun b => !(b == a)} :=
        hf.mono fun b hb => List.mem_cons_of_mem _ (List.mem_of_mem_filter hb)
      rw [List.map_cons, List.eraseDups_cons, List.eraseDups_cons, List.map_cons, hfilter,
        ih _ hshort _ hinj rfl]

/-- An element keeps its place. -/
theorem idxOf_map_of_injOn {f : α → β} {as : List α} {a : α}
    (hf : Set.InjOn f {b | b = a ∨ b ∈ as}) : (as.map f).idxOf (f a) = as.idxOf a := by
  induction as with
  | nil => rfl
  | cons b as ih =>
    have hsame : (f b == f a) = (b == a) := by
      rw [Bool.eq_iff_iff, beq_iff_eq, beq_iff_eq]
      exact hf.eq_iff (.inr List.mem_cons_self) (.inl rfl)
    have hrest : Set.InjOn f {c | c = a ∨ c ∈ as} :=
      hf.mono fun c hc => hc.imp_right (List.mem_cons_of_mem b)
    rw [List.map_cons, List.idxOf_cons, List.idxOf_cons, hsame, ih hrest]

end Lists

/-! ### The changed dataset -/

namespace Graph

variable {r : Renaming} {records : List Record}

theorem getElem?_records (r : Renaming) (records : List Record) (k : Nat) :
    (r.records records)[k]? = records[k]?.map (r.record k) := List.getElem?_mapIdx

/-- What is read off changed records whatever their numbers. -/
theorem map_records {α : Type} {f g : Record → α}
    (hfg : ∀ e ∈ records, ∀ k, f (r.record k e) = g e) :
    (r.records records).map f = records.map g := by
  apply List.ext_getElem?
  intro k
  rw [List.getElem?_map, List.getElem?_map, getElem?_records, Option.map_map]
  exact Option.map_congr fun e he => hfg e (List.mem_of_getElem? he) k

theorem namesOf_renamed (hr : r.KeepsApart records) :
    namesOf (r.records records) = (namesOf records).map r.name := by
  have hmention : (r.records records).flatMap (fun e => [e.source, e.target]) =
      (records.flatMap fun e => [e.source, e.target]).map r.name := by
    rw [List.map_flatMap, List.flatMap_def, List.flatMap_def]
    exact congrArg List.flatten (map_records fun _ _ _ => rfl)
  rw [namesOf, hmention]
  exact eraseDups_map_of_injOn _ (hr.mono fun x hx => by simpa using hx)

/-- The changed records join the same numbers. -/
theorem endsOf_renamed (hr : r.KeepsApart records) {e : Record} (he : e ∈ records) (k : Nat) :
    endsOf (namesOf (r.records records)) (r.record k e) = endsOf (namesOf records) e := by
  have hidx : ∀ x, x = e.source ∨ x = e.target →
      ((namesOf records).map r.name).idxOf (r.name x) = (namesOf records).idxOf x := by
    intro x hx
    refine idxOf_map_of_injOn (hr.mono ?_)
    rintro y (rfl | hy)
    · exact ⟨e, he, hx⟩
    · exact mem_namesOf.mp hy
  rw [namesOf_renamed hr]
  exact Prod.ext (hidx _ (.inl rfl)) (hidx _ (.inr rfl))

theorem bowsOf_renamed (hr : r.KeepsApart records) :
    bowsOf (r.records records) = bowsOf records := by
  rw [bowsOf, bowsOf, map_records fun e he k => endsOf_renamed hr he k]

/-- **The graph of the changed dataset is the changed graph.** -/
theorem ofRecords_renamed (hr : r.KeepsApart records) :
    (ofRecords (r.records records) : Graph F) = r.graph (ofRecords records) := by
  have hnodes : (ofRecords (r.records records) : Graph F).nodes =
      (ofRecords records).nodes.map (Node.renamed r.name) := by
    apply Array.toList_inj.mp
    rw [Array.toList_map]
    show (namesOf (r.records records)).map Node.named =
      ((namesOf records).map Node.named).map (Node.renamed r.name)
    rw [namesOf_renamed hr, List.map_map, List.map_map]
    rfl
  have hlinks : (ofRecords (r.records records) : Graph F).links =
      (ofRecords records).links.mapIdx r.link := by
    apply Array.ext_getElem?
    intro k
    rw [Array.getElem?_mapIdx, ← Array.getElem?_toList, ← Array.getElem?_toList,
      links_ofRecords, links_ofRecords, List.getElem?_zipWith, List.getElem?_zipWith,
      bowsOf_renamed hr, getElem?_records]
    rcases hk : records[k]? with - | e
    · rfl
    · rcases (bowsOf records)[k]? with - | bow
      · rfl
      · have hends := endsOf_renamed hr (List.mem_of_getElem? hk) k
        rw [endsOf, endsOf, Prod.mk.injEq] at hends
        simp only [Option.map_some, linkOf, hends]
        rfl
  rw [Renaming.graph, ← hnodes, ← hlinks]
  rfl

/-! ### What a changed graph keeps -/

omit [Scalar F] in
@[simp] theorem map_untyped_renamed (r : Renaming) (g : Graph F) :
    (r.graph g).links.map Link.untyped = g.links.map Link.untyped := by
  have hkind : ∀ k (l : Link F), (r.link k l).untyped = l.untyped := fun _ _ => rfl
  exact map_mapIdx_of_eq hkind g.links

@[simp] theorem positionOf_renamed (r : Renaming) (g : Graph F) (i : Nat) :
    (r.graph g).positionOf i = g.positionOf i := by
  rw [positionOf, positionOf, Renaming.graph, Array.getElem?_map, Option.map_map]
  rfl

omit [Scalar F] in
/-- A change of one node that does not ask for its name. -/
theorem modifyNode_renamed (r : Renaming) (g : Graph F) (i : Nat) {f : Node F → Node F}
    (hf : ∀ n, (f n).renamed r.name = f (n.renamed r.name)) :
    (r.graph g).modifyNode i f = r.graph (g.modifyNode i f) := by
  have hnodes := congrArg Bodies.nodes
    (Bodies.renamed_modify r.name ⟨g.nodes, .initial⟩ i hf)
  exact congrArg (fun nodes => ({ r.graph g with nodes } : Graph F)) hnodes.symm

end Graph

end ForceDiagram
