/-
ForceDiagram/Proofs/Command/Export.lean

What an exported drawing shows of its dataset.

A simulation runs when it starts, so with at least one step allowed the scene is one
that a tick has drawn, of a graph that still has the names and links of the dataset
(`stepped_settle`); where its nodes have gone and whether it came to rest is of no
account.  Such a scene says what the records say (`contents_tick`), and its document is
read back as in the theory of documents, so it has the records' paths, labels, discs and
names (`depicts_pieces`).

Main result: an export writes such a document, and nothing if the dataset cannot be
loaded (`exportTo_depicts`).
-/
import ForceDiagram.Command.Export
import ForceDiagram.Proofs.Files
import ForceDiagram.Proofs.Scene.Svg
import ForceDiagram.Proofs.View.Steps
import Mathlib.Data.List.Nodup

namespace ForceDiagram

variable {F : Type} [Scalar F]

open Markup (Piece)

/-! ### The scene that settling leaves -/

namespace View

/-- A view after its first step shows a graph of its dataset. -/
structure Stepped (records : List Record) (viewport : Viewport F) (config : Config F)
    (v : View F) : Prop where
  sameViewport : v.viewport = viewport
  sameConfig : v.config = config
  shape : v.graph.shape = (Graph.ofRecords records : Graph F).shape
  scene : ∃ g : Graph F, g.shape = (Graph.ofRecords records : Graph F).shape ∧
    v.scene = (g.tick viewport config).2

theorem stepped_advance_of_running {records : List Record} {v : View F}
    (hshape : v.graph.shape = (Graph.ofRecords records : Graph F).shape)
    (hrun : v.simulation.running = true) : Stepped records v.viewport v.config v.advance.1 := by
  have hadvanced := shape_advance v
  rw [advance_of_running hrun] at hadvanced ⊢
  refine ⟨rfl, rfl, hadvanced.trans hshape, v.simulation.step.graph, ?_, rfl⟩
  exact (Simulation.shape_step v.simulation).trans hshape

theorem Stepped.advance {records : List Record} {viewport : Viewport F} {config : Config F}
    {v : View F} (h : Stepped records viewport config v) :
    Stepped records viewport config v.advance.1 := by
  rcases hrun : v.simulation.running with - | -
  · rw [advance_of_resting hrun]
    exact h
  · obtain ⟨rfl, rfl, hshape, -⟩ := h
    exact stepped_advance_of_running hshape hrun

/-- After any number of steps but none, the scene is one that a tick has drawn. -/
theorem stepped_settle (records : List Record) (viewport : Viewport F) (config : Config F)
    {most : Nat} (hmost : 1 ≤ most) :
    Stepped records viewport config ((ofRecords records viewport config).settle most).1 := by
  obtain ⟨most, rfl⟩ := Nat.exists_eq_add_of_le' hmost
  rw [settle_succ_of_running rfl]
  have hshape : (ofRecords records viewport config).graph.shape =
      (Graph.ofRecords records : Graph F).shape := Simulation.shape_placedGraph _ _
  exact settle_induction (fun _ => Stepped.advance) (stepped_advance_of_running hshape rfl) most

end View

/-! ### What it says -/

namespace Graph

variable {g : Graph F} {records : List Record}

/-- The type of the link at a position is that of the record there. -/
theorem kind_getElem?_of_shape (h : g.shape = (ofRecords records : Graph F).shape) (k : Nat) :
    g.links[k]?.map (·.kind) = records[k]?.map fun r => Kind.ofLabel r.kind := by
  rcases hl : g.links[k]? with - | l
  · have hlength := Array.getElem?_eq_none_iff.mp hl
    rw [size_links_of_shape h] at hlength
    rw [List.getElem?_eq_none_iff.mpr hlength]
    rfl
  · obtain ⟨r, hr, hkind, -⟩ := link_of_shape h hl
    rw [hr, Option.map_some, Option.map_some, hkind]

/-- What is said of links by their numbers and types is said of the records. -/
theorem mapIdx_links_of_shape {α : Type} (h : g.shape = (ofRecords records : Graph F).shape)
    (f : Nat → Kind → α) :
    g.links.toList.mapIdx (fun k l => f k l.kind) =
      records.mapIdx fun k r => f k (.ofLabel r.kind) := by
  apply List.ext_getElem?
  intro k
  have hkind := congrArg (Option.map (f k)) (kind_getElem?_of_shape h k)
  rw [Option.map_map, Option.map_map] at hkind
  rw [List.getElem?_mapIdx, List.getElem?_mapIdx, Array.getElem?_toList]
  exact hkind

theorem names_of_shape (h : g.shape = (ofRecords records : Graph F).shape) :
    g.nodes.toList.map (·.name) = namesOf records := by
  have hnames := congrArg Array.toList (shape_eq_iff.mp h).1
  rw [Array.toList_map, Array.toList_map] at hnames
  refine hnames.trans ?_
  show ((namesOf records).map Node.named).map (fun n : Node F => n.name) = namesOf records
  rw [List.map_map]
  exact List.map_id _

/-- The scene of a graph of a dataset says what the records say. -/
theorem contents_tick (h : g.shape = (ofRecords records : Graph F).shape) (viewport : Viewport F)
    (config : Config F) :
    (g.tick viewport config).2.contents =
      ⟨records.mapIdx fun k r =>
          ⟨linkId k, r.kind, (Marker.ofKind? (.ofLabel r.kind)).map Marker.reference⟩,
        records.mapIdx fun k r => ⟨linkId k, r.kind⟩, namesOf records⟩ := by
  have htick : (g.tick viewport config).1.shape = (ofRecords records : Graph F).shape :=
    (shape_tick viewport config g).trans h
  have hedges := mapIdx_links_of_shape htick fun k kind =>
    (⟨linkId k, kind.label, (Marker.ofKind? kind).map Marker.reference⟩ : EdgeEntry)
  have hlabels := mapIdx_links_of_shape htick fun k kind =>
    (⟨linkId k, kind.label⟩ : LabelEntry)
  have hnames := names_of_shape htick
  simp only [Kind.label_ofLabel] at hedges hlabels
  rw [Scene.contents, ← hedges, ← hlabels, ← hnames]
  congr 1
  · exact map_mapIdx _ _ _
  · exact map_mapIdx _ _ _
  · exact List.map_map

end Graph

/-! ### What its document shows -/

namespace Command

open Contents (edgeOf? labelOf? nameOf?)
open ForceDiagram.Graph (linkId)
open Markup (layout)

/-- The names by which elements are referred to. -/
def idOf? (p : Piece) : Option String := p.tag.value? "id"

/-- Of a circle, where it is. -/
def circleOf? (p : Piece) : Option (Option String) :=
  if p.tag.name = "circle" then some (p.tag.value? "transform") else none

/-- Of the label with the name of a node, where it is and what it says. -/
def nameLabelOf? (p : Piece) : Option (Option String × String) :=
  if p.tag.name = "text" && p.tag.value? "class" = some "node-label" then
    some (p.tag.value? "transform", p.text)
  else none

/-- What a document shows of a dataset.  The `k`-th path has the name of the `k`-th link
and the type of the `k`-th record, with the marker of that type if it is one of the three
known ones.  The `k`-th label belongs to that path and shows that type.  No two elements
have one name, and so a label's path is one and no other.  For every name that a record
mentions there is one name label, by first mention, and one circle, at the same place. -/
structure Depicts (records : List Record) (ps : List Piece) : Prop where
  paths : ps.filterMap edgeOf? = records.mapIdx fun k r =>
    ⟨linkId k, r.kind,
      if r.kind ∈ ["request-rejected", "request-accepted", "response"] then
        some ("url(#" ++ r.kind ++ ")")
      else none⟩
  labels : ps.filterMap labelOf? = records.mapIdx fun k r => ⟨linkId k, r.kind⟩
  ids : (ps.filterMap idOf?).Nodup
  resolves : ∀ l ∈ ps.filterMap labelOf?, ∃ p,
    (ps.filter fun p => idOf? p = some l.pathId) = [p] ∧ p.tag.name = "path"
  names : Graph.ByFirstMention ((ps.filterMap nameLabelOf?).map (·.2)) (Graph.mentions records)
  circles : ps.filterMap circleOf? = (ps.filterMap nameLabelOf?).map (·.1)

theorem reference_ofKind? (kind : String) :
    (Marker.ofKind? (.ofLabel kind)).map Marker.reference =
      if kind ∈ ["request-rejected", "request-accepted", "response"] then
        some ("url(#" ++ kind ++ ")")
      else none := by
  unfold Kind.ofLabel
  split
  · subst kind
    decide
  · split
    · subst kind
      decide
    · split
      · subst kind
        decide
      · next h₁ h₂ h₃ => simp [h₁, h₂, h₃, Marker.ofKind?]

theorem linkId_injective : Function.Injective linkId := by
  intro k l h
  have hrepr := congrArg String.toList ((String.append_right_inj "link-").mp h)
  rw [Nat.toString_eq_repr, Nat.toString_eq_repr, Nat.toList_repr, Nat.toList_repr] at hrepr
  rw [← Nat.ofDigitChars_ten_toDigits (n := k), hrepr, Nat.ofDigitChars_ten_toDigits]

/-- Markers and links have different names. -/
theorem nodup_ids (n : Nat) :
    (Marker.all.map Marker.id ++ (List.range n).map linkId).Nodup := by
  have hhead : ∀ k, (linkId k).toList.head? = some 'l' := by
    intro k
    rw [linkId, String.toList_append]
    rfl
  refine List.nodup_append.mpr ⟨by decide, List.nodup_range.map linkId_injective, ?_⟩
  intro a ha b hb hab
  obtain ⟨m, -, rfl⟩ := List.mem_map.mp ha
  obtain ⟨k, -, rfl⟩ := List.mem_map.mp hb
  have hm : m.id.toList.head? = some 'r' := by cases m <;> decide
  rw [hab, hhead k] at hm
  exact absurd hm (by decide)

theorem ids_pieces (s : Scene F) (config : Config F) :
    (Svg.pieces s config).filterMap idOf? = Marker.all.map Marker.id ++ s.edges.map (·.id) := by
  have hframe : ∀ p ∈ Svg.frame s, idOf? p = none := by
    intro p hp
    simp only [Svg.frame, Svg.around, Svg.stylePieces, Svg.sizeOf, List.cons_append,
      List.nil_append, List.mem_cons, List.not_mem_nil, or_false] at hp
    rcases hp with rfl | rfl | rfl | rfl | rfl | rfl | rfl | rfl <;> rfl
  have hmarker : ∀ m, (layout (Svg.marker config m)).2.filterMap idOf? = [m.id] := by
    intro m
    simp [Svg.marker, layout, Markup.newline, idOf?, Markup.Tag.value?]
  rw [Svg.filterMap_pieces s config hframe]
  simp [hmarker, Svg.edge, Svg.label, Svg.disc, Svg.name, layout, Markup.newline, idOf?,
    Markup.Tag.value?, Svg.flatMap_nil_right, List.map_eq_flatMap]

theorem circles_pieces (s : Scene F) (config : Config F) :
    (Svg.pieces s config).filterMap circleOf? = s.nodes.map fun n => some (Svg.place n) := by
  rw [Svg.filterMap_pieces (f := circleOf?) s config
    fun p hp => if_neg (Svg.frame_name_ne hp "circle" (by decide))]
  simp [Svg.marker, Svg.edge, Svg.label, Svg.disc, Svg.name, layout, Markup.newline, circleOf?,
    Markup.Tag.value?, Svg.flatMap_nil_right, List.map_eq_flatMap]

theorem nameLabels_pieces (s : Scene F) (config : Config F) :
    (Svg.pieces s config).filterMap nameLabelOf? =
      s.nodes.map fun n => (some (Svg.place n), n.name) := by
  rw [Svg.filterMap_pieces (f := nameLabelOf?) s config
    fun p hp => by simp [nameLabelOf?, Svg.frame_name_ne hp "text" (by decide)]]
  simp [Svg.marker, Svg.edge, Svg.label, Svg.disc, Svg.name, layout, Markup.newline,
    nameLabelOf?, Markup.Tag.value?, Svg.flatMap_nil_right, List.map_eq_flatMap]

/-- Where no two elements have one name, an element is the only one of its name. -/
theorem filter_eq_singleton {α β : Type} [DecidableEq β] {f : α → Option β} {as : List α} {a : α}
    {b : β} (hnodup : (as.filterMap f).Nodup) (ha : a ∈ as) (hb : f a = some b) :
    (as.filter fun c => f c = some b) = [a] := by
  induction as with
  | nil => nomatch ha
  | cons c as ih =>
    rcases hc : f c with - | d
    · rw [List.filterMap_cons_none hc] at hnodup
      have hne : a ≠ c := by
        rintro rfl
        rw [hc] at hb
        nomatch hb
      rw [List.filter_cons_of_neg (by simp [hc])]
      exact ih hnodup ((List.mem_cons.mp ha).resolve_left hne)
    · rw [List.filterMap_cons_some hc, List.nodup_cons] at hnodup
      have hother : ∀ c' ∈ as, f c' ≠ some d := fun c' hc' heq =>
        hnodup.1 (List.mem_filterMap.mpr ⟨c', hc', heq⟩)
      rcases List.mem_cons.mp ha with rfl | hmem
      · obtain rfl : d = b := Option.some.inj (hc.symm.trans hb)
        rw [List.filter_cons_of_pos (by simp [hc]), List.filter_eq_nil_iff.mpr]
        intro c' hc'
        simpa using hother c' hc'
      · have hne : d ≠ b := by
          rintro rfl
          exact hother a hmem hb
        rw [List.filter_cons_of_neg (by simp [hc, hne])]
        exact ih hnodup.2 hmem

/-- An edge is a path with the name of the edge. -/
theorem of_edgeOf? {p : Piece} {e : EdgeEntry} (h : edgeOf? p = some e) :
    p.tag.name = "path" ∧ idOf? p = some e.id := by
  unfold edgeOf? at h
  split at h
  · next hname =>
    obtain ⟨id, hid, hrest⟩ := Option.bind_eq_some_iff.mp h
    obtain ⟨kind, -, heq⟩ := Option.bind_eq_some_iff.mp hrest
    obtain rfl := Option.some.inj heq
    exact ⟨hname, hid⟩
  · nomatch h

theorem mapIdx_linkId {α : Type} (as : List α) :
    (as.mapIdx fun k _ => linkId k) = (List.range as.length).map linkId := by
  apply List.ext_getElem
  · rw [List.length_mapIdx, List.length_map, List.length_range]
  · intro k _ _
    rw [List.getElem_mapIdx, List.getElem_map, List.getElem_range]

/-- A document shows the dataset that its scene is of. -/
theorem depicts_pieces {g : Graph F} {records : List Record}
    (h : g.shape = (Graph.ofRecords records : Graph F).shape) (viewport : Viewport F)
    (config drawn : Config F) :
    Depicts records (Svg.pieces (g.tick viewport config).2 drawn) := by
  have hscene := Graph.contents_tick h viewport config
  generalize (g.tick viewport config).2 = s at hscene
  have hcontents := (Svg.ofPieces_pieces s drawn).trans hscene
  have hpaths : (Svg.pieces s drawn).filterMap edgeOf? = records.mapIdx fun k r =>
      ⟨linkId k, r.kind, (Marker.ofKind? (.ofLabel r.kind)).map Marker.reference⟩ :=
    congrArg Contents.edges hcontents
  have hlabels : (Svg.pieces s drawn).filterMap labelOf? =
      records.mapIdx fun k r => ⟨linkId k, r.kind⟩ := congrArg Contents.labels hcontents
  have hnames : s.nodes.map (fun n => n.name) = Graph.namesOf records :=
    congrArg Contents.names hscene
  have hids : s.edges.map (·.id) = (List.range records.length).map linkId := by
    have hentries := congrArg (fun c : Contents => c.edges.map (·.id)) hscene
    simp only [Scene.contents, List.map_map, map_mapIdx] at hentries
    exact hentries.trans (mapIdx_linkId records)
  have hnodup : ((Svg.pieces s drawn).filterMap idOf?).Nodup := by
    rw [ids_pieces, hids]
    exact nodup_ids records.length
  refine ⟨?_, hlabels, hnodup, ?_, ?_, ?_⟩
  · simp only [← reference_ofKind?]
    exact hpaths
  · intro l hl
    rw [hlabels] at hl
    obtain ⟨k, hk, rfl⟩ := List.mem_mapIdx.mp hl
    have hpath : (⟨linkId k, records[k].kind,
        (Marker.ofKind? (.ofLabel records[k].kind)).map Marker.reference⟩ : EdgeEntry) ∈
        (Svg.pieces s drawn).filterMap edgeOf? := by
      rw [hpaths]
      exact List.mem_mapIdx.mpr ⟨k, hk, rfl⟩
    obtain ⟨p, hp, hedge⟩ := List.mem_filterMap.mp hpath
    obtain ⟨hname, hid⟩ := of_edgeOf? hedge
    exact ⟨p, filter_eq_singleton hnodup hp hid, hname⟩
  · rw [nameLabels_pieces, List.map_map]
    show Graph.ByFirstMention (s.nodes.map fun n => n.name) (Graph.mentions records)
    rw [hnames]
    exact Graph.byFirstMention_namesOf records
  · rw [circles_pieces, nameLabels_pieces, List.map_map]
    rfl

/-- **An export shows its dataset.**  Whatever the sizes and strengths, if the dataset is
loaded, at least one step is allowed and the path can be written to at all, then a document
stands there afterwards that shows the dataset.  If the dataset is not loaded, nothing is
written. -/
theorem exportTo_depicts {home : List String} (a : Arguments F) (output : String)
    (files : Files home) :
    (∀ error, Dataset.load files a.data = .error error →
      a.exportTo output files = .error (.unloaded error)) ∧
    ∀ records, Dataset.load files a.data = .ok records → 1 ≤ a.maxSteps →
      (∃ content written, files.write output content = .ok written) →
      ∃ (written : Files home) (document : String) (ps : List Piece),
        a.exportTo output files = .ok written ∧
        written.read output = .ok document.toUTF8.toList ∧
        Markup.read document.toList = some ps ∧ Depicts records (ps.map Piece.meaning) := by
  refine ⟨fun error herror => ?_, fun records hload hsteps hwrite => ?_⟩
  · rw [Arguments.exportTo, herror]
  · obtain ⟨content, written, hwritten⟩ := hwrite
    obtain ⟨place, hleads, -⟩ := Files.leadsTo_of_write hwritten
    have hwrite := Files.write_of_leadsTo hleads (a.drawing records).toUTF8.toList
    obtain ⟨-, hconfig, -, g, hshape, hscene⟩ :=
      View.stepped_settle records a.viewport a.config hsteps
    have hread := Scene.read_svg (g.tick a.viewport a.config).2 a.config
    have hdrawing : a.drawing records = (g.tick a.viewport a.config).2.svg a.config := by
      show ((View.ofRecords records a.viewport a.config).settle a.maxSteps).1.scene.svg
        ((View.ofRecords records a.viewport a.config).settle a.maxSteps).1.config = _
      rw [hscene, hconfig]
    have hmeaning : Piece.meaning ∘ Piece.escaped = id := funext Piece.meaning_escaped
    refine ⟨_, a.drawing records, _, ?_, Files.read_write hwrite,
      (congrArg (fun d : String => Markup.read d.toList) hdrawing).trans hread, ?_⟩
    · rw [Arguments.exportTo, hload]
      simp only [hwrite]
    · rw [List.map_map, hmeaning, List.map_id]
      exact depicts_pieces hshape a.viewport a.config a.config

theorem eq_ok_of_toOption {ε α : Type} {x : Except ε α} {a : α} (h : x.toOption = some a) :
    x = .ok a := by
  cases x with
  | error => nomatch h
  | ok b => exact congrArg Except.ok (Option.some.inj h)

/-- Two links between the same nodes, one of no known type, and one back to its node.  Both paths
are from the root, and the second one leads to the working directory. -/
theorem exportTo_depicts_multigraph :
    let content :=
      "[[\"a\",\"b\",\"response\"],[\"b\",\"a\",\"<x>\"],[\"a\",\"a\",\"b\"]]".toUTF8.toList
    let files : Files ["srv", "work"] := ⟨[(["..", "..", "tmp", "d"], .file content)]⟩
    let records : List Record := [⟨"a", "b", "response"⟩, ⟨"b", "a", "<x>"⟩, ⟨"a", "a", "b"⟩]
    let a : Arguments Float32 := { Arguments.standard with data := "/tmp/d", maxSteps := 1 }
    Dataset.load files a.data = .ok records ∧ 1 ≤ a.maxSteps ∧
    (∃ content written, files.write "/srv/work/o" content = .ok written) ∧
    ∃ (written : Files ["srv", "work"]) (document : String) (ps : List Piece),
      a.exportTo "/srv/work/o" files = .ok written ∧
      written.read "/srv/work/o" = .ok document.toUTF8.toList ∧
      Markup.read document.toList = some ps ∧ Depicts records (ps.map Piece.meaning) := by
  intro content files records a
  have hwalk : files.walk ["..", ".."] (Files.partsOf "/tmp/d") =
      .ok ["..", "..", "tmp", "d"] := by
    rw [Files.partsOf_eq]
    rfl
  have hread : files.read "/tmp/d" = .ok content :=
    Files.read_of_walk (by decide +kernel) hwalk rfl
  have hload : Dataset.load files a.data = .ok records := by
    show Dataset.ofContent "/tmp/d" (files.read "/tmp/d") = .ok records
    rw [hread]
    exact eq_ok_of_toOption (by decide +kernel)
  have hleads : files.LeadsTo "/srv/work/o" ["o"] := by
    refine ⟨by decide +kernel, ⟨["", "srv", "work"], "o", [], ?_, by decide, by decide, rfl, rfl,
      rfl⟩, by decide +kernel⟩
    rw [Files.partsOf_eq]
    rfl
  have hwritable : ∃ content written, files.write "/srv/work/o" content = .ok written :=
    ⟨[], _, Files.write_of_leadsTo hleads []⟩
  exact ⟨hload, by decide, hwritable,
    (exportTo_depicts a "/srv/work/o" files).2 records hload (by decide) hwritable⟩

end Command

end ForceDiagram
