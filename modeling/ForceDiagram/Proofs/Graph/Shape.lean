/-
ForceDiagram/Proofs/Graph/Shape.lean

What a layout never changes in a graph.

The names of the nodes, and of every link all but the offset it was last drawn
with, make up the shape of a graph.  Two graphs of one shape number their nodes
alike, and give the same springs to the same links.
-/
import ForceDiagram.Proofs.Force.Frame
import ForceDiagram.Proofs.Graph.OfRecords

namespace ForceDiagram

variable {F : Type} [Scalar F]

/-- The link as it was before it was drawn. -/
def Link.undrawn (l : Link F) : Link F := { l with offset := .zero }

@[simp] theorem Link.ends_undrawn (l : Link F) : l.undrawn.ends = l.ends := rfl

namespace Graph

structure Shape (F : Type) where
  names : Array String
  links : Array (Link F)

def shape (g : Graph F) : Shape F := ⟨g.nodes.map (·.name), g.links.map Link.undrawn⟩

theorem shape_eq_iff {g h : Graph F} :
    g.shape = h.shape ↔ g.nodes.map (·.name) = h.nodes.map (·.name) ∧
      g.links.map Link.undrawn = h.links.map Link.undrawn := by
  rw [shape, shape, Shape.mk.injEq]

theorem indexOf?_eq_findIdx?_names (g : Graph F) (name : String) :
    g.indexOf? name = g.shape.names.findIdx? (· == name) := by
  rw [indexOf?, shape, Array.findIdx?_map]
  rfl

/-- The links of a dataset have not been drawn. -/
theorem undrawn_links_ofRecords (records : List Record) :
    (ofRecords records : Graph F).links.map Link.undrawn = (ofRecords records).links := by
  apply Array.toList_inj.mp
  rw [Array.toList_map, links_ofRecords, List.map_zipWith]
  rfl

section

variable {g : Graph F} {records : List Record}

theorem undrawn_links_of_shape (h : g.shape = (ofRecords records : Graph F).shape) :
    g.links.map Link.undrawn = (ofRecords records).links :=
  (shape_eq_iff.mp h).2.trans (undrawn_links_ofRecords records)

theorem size_links_of_shape (h : g.shape = (ofRecords records : Graph F).shape) :
    g.links.size = records.length := by
  have hsize := congrArg Array.size (undrawn_links_of_shape h)
  rwa [Array.size_map, size_links_ofRecords] at hsize

/-- A link stands for the record at its position, and bows as the matching of the records asks
for, however it was drawn. -/
theorem link_of_shape (h : g.shape = (ofRecords records : Graph F).shape) {p : Nat} {l : Link F}
    (hl : g.links[p]? = some l) : ∃ r, records[p]? = some r ∧
      l.kind = .ofLabel r.kind ∧ l.ends = endsOf (namesOf records) r ∧
        Bow.Fits (records.map Record.ends) p l.bow := by
  have hundrawn : (ofRecords records : Graph F).links[p]? = some l.undrawn := by
    rw [← undrawn_links_of_shape h, Array.getElem?_map, hl]
    rfl
  obtain ⟨r, b, hr, hb, heq⟩ := getElem?_links_ofRecords.mp hundrawn
  have hkind : l.kind = .ofLabel r.kind := congrArg (·.kind) heq.symm
  have hends : l.ends = endsOf (namesOf records) r := congrArg Link.ends heq.symm
  have hbow : l.bow = b := congrArg (·.bow) heq.symm
  exact ⟨r, hr, hkind, hends, hbow ▸ (getElem?_bowsOf.mp hb).2⟩

end

/-- The ends of all links are nodes. -/
def Closed (g : Graph F) : Prop :=
  ∀ l ∈ g.links, l.source < g.nodes.size ∧ l.target < g.nodes.size

/-- The ends of links in a dataset are names that it mentions. -/
theorem closed_ofRecords (records : List Record) : (ofRecords records : Graph F).Closed := by
  have hsize : (ofRecords records : Graph F).nodes.size = (namesOf records).length :=
    List.length_map _
  intro l hl
  obtain ⟨p, hp⟩ := Array.mem_iff_getElem?.mp hl
  obtain ⟨r, b, hr, -, rfl⟩ := getElem?_links_ofRecords.mp hp
  have hmem := List.mem_of_getElem? hr
  rw [hsize]
  exact ⟨List.idxOf_lt_length_iff.mpr (source_mem_namesOf hmem),
    List.idxOf_lt_length_iff.mpr (target_mem_namesOf hmem)⟩

/-- Which links lead where is a matter of the shape. -/
theorem Closed.of_shape {g h : Graph F} (hg : g.Closed) (hshape : h.shape = g.shape) : h.Closed := by
  obtain ⟨hnames, hlinks⟩ := shape_eq_iff.mp hshape
  have hsize := congrArg Array.size hnames
  rw [Array.size_map, Array.size_map] at hsize
  intro l hl
  have hundrawn : l.undrawn ∈ g.links.map Link.undrawn := by
    rw [← hlinks]
    exact Array.mem_map.mpr ⟨l, hl, rfl⟩
  obtain ⟨l', hl', heq⟩ := Array.mem_map.mp hundrawn
  have hsource : l'.source = l.source := congrArg (·.source) heq
  have htarget : l'.target = l.target := congrArg (·.target) heq
  rw [hsize, ← hsource, ← htarget]
  exact hg l' hl'

end Graph

namespace Spring

theorem ofLinks_of_shape {g h : Graph F} (hs : g.shape = h.shape) :
    ofLinks g.links = ofLinks h.links := by
  rw [← ofLinks_map Link.ends_undrawn, (Graph.shape_eq_iff.mp hs).2,
    ofLinks_map Link.ends_undrawn]

end Spring

end ForceDiagram
