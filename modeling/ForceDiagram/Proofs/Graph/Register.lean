/-
ForceDiagram/Proofs/Graph/Register.lean

The nodes of a dataset, name by name.

A graph can be grown record by record.  A `Register` keeps the names met so far and a
table of their numbers; each end of a record is looked up in the table, and only a name
that is not found there becomes the next node.  The target of a record already sees what
its source has left, so a record with one name at both ends makes one node.

What the register has after each name is said by `Met`: its names are those mentioned,
each once and by first mention, and its table is the exact inverse of them.  Looking up
one more name keeps this (`Met.resolve`), and later names never change the number of an
earlier one, so the ends found on the way are those of the finished graph
(`enterAll_of_met`).

Main result: the nodes, the links and the name index of a dataset's graph
(`ofRecords_by_first_mention`), which are those that a register grows.
-/
import ForceDiagram.Proofs.Graph.OfRecords

namespace ForceDiagram

variable {F : Type} [Scalar F]

namespace Graph

/-! ### Growing record by record -/

/-- The names met so far in the order of their numbers, and a table of these numbers. -/
structure Register where
  names : Array String
  numbers : Std.HashMap String Nat

namespace Register

def empty : Register := ⟨#[], ∅⟩

/-- Looks up the number of a name; a name that is not in the table gets the next one. -/
def resolve (t : Register) (name : String) : Register × Nat :=
  match t.numbers[name]? with
  | some i => (t, i)
  | none => (⟨t.names.push name, t.numbers.insert name t.names.size⟩, t.names.size)

/-- The numbers at the two ends of a record, its source being looked up first. -/
def enter (t : Register) (r : Record) : Register × Bow.Ends :=
  let (t, source) := t.resolve r.source
  let (t, target) := t.resolve r.target
  (t, source, target)

/-- One record after the other, with the ends found for each. -/
def enterAll (t : Register) : List Record → Register × List Bow.Ends
  | [] => (t, [])
  | r :: rest =>
    let (t, ends) := t.enter r
    let (t, more) := t.enterAll rest
    (t, ends :: more)

/-! ### What a register has met -/

/-- The register has met the given names: it lists each once, by first mention, and its
table has the place of each in the list. -/
structure Met (mentioned : List String) (t : Register) : Prop where
  names : t.names.toList = mentioned.eraseDups
  numbers : ∀ x, t.numbers[x]? =
    if x ∈ mentioned then some (mentioned.eraseDups.idxOf x) else none

theorem met_empty : Met [] empty where
  names := rfl
  numbers _ := Std.HashMap.getElem?_empty

variable {mentioned : List String} {t : Register} {x : String}

/-- A name that was mentioned before is not listed again. -/
theorem eraseDups_concat_of_mem (hx : x ∈ mentioned) :
    (mentioned ++ [x]).eraseDups = mentioned.eraseDups := by
  have hnone : [x].removeAll mentioned = [] := by simp [List.removeAll, hx]
  rw [List.eraseDups_append, hnone, List.eraseDups_nil, List.append_nil]

/-- A new name is listed last. -/
theorem eraseDups_concat_of_not_mem (hx : x ∉ mentioned) :
    (mentioned ++ [x]).eraseDups = mentioned.eraseDups ++ [x] := by
  have hone : [x].removeAll mentioned = [x] := by simp [List.removeAll, hx]
  rw [List.eraseDups_append, hone]
  rfl

/-- Later names do not change the place of an earlier one. -/
theorem idxOf_eraseDups_append (hx : x ∈ mentioned) (more : List String) :
    (mentioned ++ more).eraseDups.idxOf x = mentioned.eraseDups.idxOf x := by
  rw [List.eraseDups_append, List.idxOf_append_of_mem (List.mem_eraseDups.mpr hx)]

/-- A name that was met before is found in the table. -/
theorem Met.resolve_of_mem (h : Met mentioned t) (hx : x ∈ mentioned) :
    t.resolve x = (t, mentioned.eraseDups.idxOf x) := by
  have hfound : t.numbers[x]? = some (mentioned.eraseDups.idxOf x) := by
    rw [h.numbers, if_pos hx]
  rw [Register.resolve, hfound]

/-- A new name gets the number after all others. -/
theorem Met.resolve_of_not_mem (h : Met mentioned t) (hx : x ∉ mentioned) :
    t.resolve x = (⟨t.names.push x, t.numbers.insert x t.names.size⟩, t.names.size) ∧
      (mentioned ++ [x]).eraseDups.idxOf x = t.names.size := by
  have hnone : t.numbers[x]? = none := by rw [h.numbers, if_neg hx]
  have hout : x ∉ mentioned.eraseDups := fun hin => hx (List.mem_eraseDups.mp hin)
  refine ⟨by rw [Register.resolve, hnone], ?_⟩
  rw [eraseDups_concat_of_not_mem hx, List.idxOf_append_of_notMem hout, List.idxOf_cons_self,
    ← h.names, Array.length_toList]
  exact Nat.add_zero _

/-- One more name. -/
theorem Met.resolve (h : Met mentioned t) (x : String) :
    Met (mentioned ++ [x]) (t.resolve x).1 ∧
      (t.resolve x).2 = (mentioned ++ [x]).eraseDups.idxOf x := by
  by_cases hx : x ∈ mentioned
  · rw [h.resolve_of_mem hx, eraseDups_concat_of_mem hx]
    refine ⟨⟨?_, ?_⟩, rfl⟩
    · rw [eraseDups_concat_of_mem hx]
      exact h.names
    · intro y
      have hmem : y ∈ mentioned ++ [x] ↔ y ∈ mentioned := by grind
      rw [eraseDups_concat_of_mem hx, h.numbers]
      simp only [hmem]
  · obtain ⟨hresolve, hplace⟩ := h.resolve_of_not_mem hx
    rw [hresolve, hplace]
    refine ⟨⟨?_, ?_⟩, rfl⟩
    · rw [Array.toList_push, h.names, eraseDups_concat_of_not_mem hx]
    · intro y
      rw [Std.HashMap.getElem?_insert]
      by_cases hyx : x = y
      · subst y
        rw [if_pos (beq_self_eq_true x), if_pos (by simp), hplace]
      · -- the other names keep their places
        have hmem : y ∈ mentioned ++ [x] ↔ y ∈ mentioned := by grind
        rw [if_neg (by simpa using hyx), h.numbers]
        simp only [hmem]
        split
        · next hy => rw [idxOf_eraseDups_append hy]
        · rfl

theorem Met.enter (h : Met mentioned t) (r : Record) :
    Met (mentioned ++ [r.source, r.target]) (t.enter r).1 ∧
      (t.enter r).2 = endsOf (mentioned ++ [r.source, r.target]).eraseDups r := by
  obtain ⟨hmet, hsource⟩ := h.resolve r.source
  obtain ⟨hmet', htarget⟩ := hmet.resolve r.target
  have hpair : mentioned ++ [r.source] ++ [r.target] = mentioned ++ [r.source, r.target] :=
    List.append_assoc _ _ _
  rw [hpair] at hmet' htarget
  refine ⟨hmet', Prod.ext ?_ htarget⟩
  show (t.resolve r.source).2 = _
  -- the target comes after the source and leaves it its number
  rw [hsource, endsOf, ← hpair,
    idxOf_eraseDups_append (List.mem_append_right _ (List.mem_singleton_self _))]

theorem enterAll_of_met (h : Met mentioned t) (records : List Record) :
    Met (mentioned ++ mentions records) (t.enterAll records).1 ∧
      (t.enterAll records).2 =
        records.map (endsOf (mentioned ++ mentions records).eraseDups) := by
  induction records generalizing mentioned t with
  | nil =>
    refine ⟨?_, rfl⟩
    show Met (mentioned ++ []) t
    rw [List.append_nil]
    exact h
  | cons r rest ih =>
    obtain ⟨hmet, hends⟩ := h.enter r
    obtain ⟨hrest, hmore⟩ := ih hmet
    have hall : mentioned ++ [r.source, r.target] ++ mentions rest =
        mentioned ++ mentions (r :: rest) := List.append_assoc _ _ _
    rw [hall] at hrest hmore
    refine ⟨hrest, ?_⟩
    show (t.enter r).2 :: ((t.enter r).1.enterAll rest).2 = _
    rw [hmore, List.map_cons, hends]
    -- what is entered later leaves the ends of this record their numbers
    have hsource : r.source ∈ mentioned ++ [r.source, r.target] := by simp
    have htarget : r.target ∈ mentioned ++ [r.source, r.target] := by simp
    rw [endsOf, endsOf, ← hall, idxOf_eraseDups_append hsource, idxOf_eraseDups_append htarget]

/-- The register of a dataset, and the ends it has found for each record. -/
def ofRecords (records : List Record) : Register × List Bow.Ends := empty.enterAll records

/-- A register grows the names and the ends of a dataset. -/
theorem met_ofRecords (records : List Record) :
    Met (mentions records) (ofRecords records).1 ∧
      (ofRecords records).2 = records.map (endsOf (namesOf records)) :=
  enterAll_of_met met_empty records

end Register

/-! ### Nodes and their names -/

/-- The name of the node with the given number. -/
def nameAt? (g : Graph F) (i : Nat) : Option String := g.nodes[i]?.map (·.name)

variable {records : List Record} {x : String} {i : Nat} {n : Node F}

omit [Scalar F] in
theorem nameAt?_of_some {g : Graph F} (hn : g.nodes[i]? = some n) :
    g.nameAt? i = some n.name := by rw [nameAt?, hn, Option.map_some]

theorem map_name_nodes_ofRecords (records : List Record) :
    (ofRecords records : Graph F).nodes.toList.map (·.name) = namesOf records := by
  show ((namesOf records).map Node.named).map (fun n : Node F => n.name) = namesOf records
  rw [List.map_map]
  exact List.map_id _

theorem nameAt?_ofRecords (records : List Record) (i : Nat) :
    (ofRecords records : Graph F).nameAt? i = (namesOf records)[i]? := by
  rw [← map_name_nodes_ofRecords (F := F), List.getElem?_map, Array.getElem?_toList]
  rfl

/-- Nodes are as they were made from their names. -/
theorem eq_named_of_mem_ofRecords (hn : n ∈ (ofRecords records : Graph F).nodes) :
    n = .named n.name := by
  obtain ⟨name, -, rfl⟩ := List.mem_map.mp (List.mem_toArray.mp hn)
  rfl

theorem nodup_namesOf (records : List Record) : (namesOf records).Nodup := by
  refine (byFirstMention_namesOf records).order.imp ?_
  intro x y hlt hxy
  subst hxy
  exact Nat.lt_irrefl _ hlt

/-- A mentioned name stands at its number. -/
theorem getElem?_namesOf_idxOf (hx : x ∈ mentions records) :
    (namesOf records)[(namesOf records).idxOf x]? = some x :=
  List.getElem?_idxOf (List.mem_eraseDups.mpr hx)

/-! ### The name index -/

omit [Scalar F] in
/-- The index finds the first node with a name. -/
theorem indexOf?_eq_some_iff {g : Graph F} :
    g.indexOf? x = some i ↔ g.nameAt? i = some x ∧ ∀ j < i, g.nameAt? j ≠ some x := by
  have hread : ∀ (j : Nat) (h : j < g.nodes.size), g.nameAt? j = some g.nodes[j].name :=
    fun j h => nameAt?_of_some (Array.getElem?_eq_getElem h)
  rw [indexOf?, Array.findIdx?_eq_some_iff_getElem]
  constructor
  · rintro ⟨h, hname, hfirst⟩
    rw [hread i h, beq_iff_eq.mp hname]
    refine ⟨rfl, fun j hj hsame => hfirst j hj ?_⟩
    rw [hread j (Nat.lt_trans hj h)] at hsame
    exact beq_iff_eq.mpr (Option.some.inj hsame)
  · rintro ⟨hname, hfirst⟩
    have h : i < g.nodes.size := by
      by_contra hout
      rw [nameAt?, Array.getElem?_eq_none (Nat.not_lt.mp hout)] at hname
      cases hname
    rw [hread i h] at hname
    refine ⟨h, beq_iff_eq.mpr (Option.some.inj hname), fun j hj hsame => hfirst j hj ?_⟩
    rw [hread j (Nat.lt_trans hj h), beq_iff_eq.mp hsame]

/-- Since no name is there twice, the first node with a name is the only one. -/
theorem indexOf?_ofRecords :
    (ofRecords records : Graph F).indexOf? x = some i ↔
      (ofRecords records : Graph F).nameAt? i = some x := by
  rw [indexOf?_eq_some_iff]
  refine ⟨And.left, fun hi => ⟨hi, fun j hj hsame => ?_⟩⟩
  rw [nameAt?_ofRecords] at hi hsame
  have heq := (List.getElem?_inj (List.getElem?_eq_some_iff.mp hsame).1
    (nodup_namesOf records)).mp (hsame.trans hi.symm)
  omega

theorem indexOf?_ofRecords_of_mem (hx : x ∈ mentions records) :
    (ofRecords records : Graph F).indexOf? x = some ((namesOf records).idxOf x) := by
  rw [indexOf?_ofRecords, nameAt?_ofRecords]
  exact getElem?_namesOf_idxOf hx

theorem indexOf?_ofRecords_eq_none_iff :
    (ofRecords records : Graph F).indexOf? x = none ↔ x ∉ mentions records := by
  constructor
  · intro hnone hx
    rw [indexOf?_ofRecords_of_mem hx] at hnone
    cases hnone
  · intro hx
    refine Option.eq_none_iff_forall_ne_some.mpr fun i hi => hx ?_
    rw [indexOf?_ofRecords, nameAt?_ofRecords] at hi
    exact List.mem_eraseDups.mp (List.mem_of_getElem? hi)

/-- The node with a name is the one that the index points to. -/
theorem node?_ofRecords :
    (ofRecords records : Graph F).node? x = some n ↔
      n ∈ (ofRecords records : Graph F).nodes ∧ n.name = x := by
  rw [node?, Option.bind_eq_some_iff]
  constructor
  · rintro ⟨i, hi, hn⟩
    rw [indexOf?_ofRecords, nameAt?_of_some hn] at hi
    exact ⟨Array.mem_of_getElem? hn, Option.some.inj hi⟩
  · rintro ⟨hn, rfl⟩
    obtain ⟨i, hi⟩ := Array.mem_iff_getElem?.mp hn
    exact ⟨i, indexOf?_ofRecords.mpr (nameAt?_of_some hi), hi⟩

/-! ### Links and their ends -/

/-- There is a link for every record. -/
theorem exists_link_of_record {p : Nat} {r : Record} (hr : records[p]? = some r) :
    ∃ b, (ofRecords records : Graph F).links[p]? = some (linkOf (namesOf records) r b) := by
  have hlt : p < (bowsOf records).length := by
    rw [length_bowsOf]
    exact (List.getElem?_eq_some_iff.mp hr).1
  refine ⟨(bowsOf records)[p], ?_⟩
  rw [getElem?_links_ofRecords]
  exact ⟨r, _, hr, List.getElem?_eq_getElem hlt, rfl⟩

theorem map_ends_links_ofRecords (records : List Record) :
    (ofRecords records : Graph F).links.toList.map Link.ends =
      records.map (endsOf (namesOf records)) := by
  apply List.ext_getElem?
  intro p
  rw [List.getElem?_map, List.getElem?_map, Array.getElem?_toList]
  rcases hr : records[p]? with - | r
  · have hsize : records.length ≤ p := List.getElem?_eq_none_iff.mp hr
    rw [← size_links_ofRecords (F := F)] at hsize
    rw [Array.getElem?_eq_none hsize]
    rfl
  · obtain ⟨b, hl⟩ := exists_link_of_record (F := F) hr
    rw [hl]
    rfl

/-- **The graph of a dataset, name by name.**  Its nodes are the names that the records
mention, each once, by first mention, unpinned, at rest, at the origin and not placed
yet.  It has one link for each record, in their order, whose ends are the nodes with the
names of the record and whose label is the record's type.  A name is found if and only if
some node has it, at the number of that node.  All this is what grows from looking up
the ends of one record after the other in a table. -/
theorem ofRecords_by_first_mention (records : List Record) :
    let g : Graph F := ofRecords records
    let names := g.nodes.toList.map (·.name)
    let grown := Register.ofRecords records
    (names.Nodup ∧ ByFirstMention names (mentions records)) ∧
    (g.links.size = records.length ∧
      ∀ (p : Nat) (r : Record), records[p]? = some r → ∃ l : Link F, g.links[p]? = some l ∧
        g.nameAt? l.source = some r.source ∧ g.nameAt? l.target = some r.target ∧
        l.kind.label = r.kind) ∧
    (∀ x, (∀ i, g.indexOf? x = some i ↔ g.nameAt? i = some x) ∧
      (g.indexOf? x = none ↔ x ∉ mentions records) ∧
      (∀ n, g.node? x = some n ↔ ∃ i, g.indexOf? x = some i ∧ g.nodes[i]? = some n) ∧
      ∀ n, g.node? x = some n ↔ n ∈ g.nodes ∧ n.name = x) ∧
    ((∀ n ∈ g.nodes, n.pin = none ∧ n.velocity = .zero ∧ n.pos = .zero) ∧ g.placed = false) ∧
    grown.1.names.toList = names ∧ (∀ x, grown.1.numbers[x]? = g.indexOf? x) ∧
      grown.2 = g.links.toList.map Link.ends := by
  intro g names grown
  have hnames : names = namesOf records := map_name_nodes_ofRecords records
  obtain ⟨hmet, hends⟩ := Register.met_ofRecords records
  refine ⟨⟨?_, ?_⟩, ⟨size_links_ofRecords records, ?_⟩, ?_, ⟨?_, rfl⟩, ?_, ?_, ?_⟩
  · rw [hnames]
    exact nodup_namesOf records
  · rw [hnames]
    exact byFirstMention_namesOf records
  · intro p r hr
    obtain ⟨b, hl⟩ := exists_link_of_record (F := F) hr
    have hmem : r ∈ records := List.mem_of_getElem? hr
    refine ⟨_, hl, ?_, ?_, Kind.label_ofLabel r.kind⟩
    · rw [nameAt?_ofRecords]
      exact getElem?_namesOf_idxOf (List.mem_eraseDups.mp (source_mem_namesOf hmem))
    · rw [nameAt?_ofRecords]
      exact getElem?_namesOf_idxOf (List.mem_eraseDups.mp (target_mem_namesOf hmem))
  · intro x
    exact ⟨fun i => indexOf?_ofRecords, indexOf?_ofRecords_eq_none_iff,
      fun n => Option.bind_eq_some_iff, fun n => node?_ofRecords⟩
  · intro n hn
    rw [eq_named_of_mem_ofRecords hn]
    exact ⟨rfl, rfl, rfl⟩
  · rw [hnames]
    exact hmet.names
  · intro x
    rw [hmet.numbers]
    split
    · next hx => exact (indexOf?_ofRecords_of_mem hx).symm
    · next hx => exact (indexOf?_ofRecords_eq_none_iff.mpr hx).symm
  · rw [hends, map_ends_links_ofRecords]

end Graph

end ForceDiagram
