/-
ForceDiagram/Proofs/Scene/Svg.lean

What a drawing says can be read off its document, and nothing said in it changes the
tags of the document.

The document of a scene is a frame of tags that are the same for every scene, around
the pieces of its markers, edges, labels, discs and names (`layout_svgTokens`).  Names
of tags and attributes never come from a dataset, so reading the document gives just
these pieces (`read_svg`), and going through them from kind to kind gives what the
scene says (`ofPieces_pieces`).

Main result: the document of a scene that a tick draws is read back, whatever the names
and types (`Graph.svg_tick`).  Of the way numbers are written the theorem asks only that
no special character occurs in it; with that, references are found nowhere but in types
and texts.
-/
import ForceDiagram.Proofs.Markup.Reading
import ForceDiagram.Proofs.Scalar.Plain
import ForceDiagram.Scene.Contents
import ForceDiagram.Scene.Svg
import ForceDiagram.Scene.Tick

namespace ForceDiagram

variable {F : Type} [Scalar F]

open Markup

/-! ### The pieces of a document -/

namespace Svg

/-- The pieces of an element around others. -/
def around (tag : String) (attributes : List Attribute) (inside : List Piece) : List Piece :=
  ⟨⟨.start, tag, attributes⟩, "\n"⟩ :: (inside ++ [⟨⟨.finish, tag, []⟩, "\n"⟩])

theorem layout_block (tag : String) (attributes : List Attribute) {content : List Token}
    {inside : List Piece} (h : layout content = ("", inside)) :
    layout (block tag attributes content) = ("", around tag attributes inside) := by
  have hend : layout [.finish tag, .text "\n"] = ("", [⟨⟨.finish, tag, []⟩, "\n"⟩]) := rfl
  simp only [block, newline, List.cons_append, List.nil_append, layout, layout_append h hend,
    String.append_empty]
  rfl

/-- The pieces of runs of tokens, each of which begins with a tag, in a group. -/
theorem layout_group {α : Type} {f : α → List Token} (h : ∀ a, (layout (f a)).1 = "")
    (as : List α) :
    layout (group (as.flatMap f)) =
      ("", around "g" [] (as.flatMap fun a => (layout (f a)).2)) :=
  layout_block "g" [] (layout_flatMap h as)

def sizeOf (s : Scene F) : List Attribute :=
  [⟨"xmlns", "http://www.w3.org/2000/svg"⟩,
    ⟨"width", Scalar.text s.viewport.width⟩,
    ⟨"height", Scalar.text s.viewport.height⟩]

def stylePieces : List Piece := [⟨⟨.start, "style", []⟩, style⟩, ⟨⟨.finish, "style", []⟩, "\n"⟩]

/-- The pieces of a document. -/
def pieces (s : Scene F) (config : Config F) : List Piece :=
  around "svg" (sizeOf s)
    (stylePieces ++
      around "defs" [] (Marker.all.flatMap fun m => (layout (marker config m)).2) ++
      around "g" [] (s.edges.flatMap fun e => (layout (edge e)).2) ++
      around "g" [] (s.labels.flatMap fun l => (layout (label l)).2) ++
      around "g" [] (s.nodes.flatMap fun n => (layout (disc config n)).2) ++
      around "g" [] (s.nodes.flatMap fun n => (layout (name n)).2))

theorem layout_svgTokens (s : Scene F) (config : Config F) :
    layout (s.svgTokens config) = ("", pieces s config) := by
  have hstyle : layout [.start "style" [], .text style, .finish "style", newline] =
      ("", stylePieces) := by
    simp only [layout, newline, String.append_empty, stylePieces]
  have hmarkers := layout_flatMap (f := marker config) (fun _ => rfl) Marker.all
  have hdefs := layout_block "defs" [] hmarkers
  have hedges := layout_group (f := edge (F := F)) (fun _ => rfl) s.edges
  have hlabels := layout_group (f := label (F := F)) (fun _ => rfl) s.labels
  have hdiscs := layout_group (f := disc config) (fun _ => rfl) s.nodes
  have hnames := layout_group (f := name (F := F)) (fun _ => rfl) s.nodes
  exact layout_block "svg" _ (layout_append (layout_append (layout_append (layout_append
    (layout_append hstyle hdefs) hedges) hlabels) hdiscs) hnames)

/-- The pieces between those of markers, edges, labels and nodes. -/
def frame (s : Scene F) : List Piece :=
  stylePieces ++ around "svg" (sizeOf s) [] ++ around "defs" [] [] ++ around "g" [] []

theorem mem_around {tag : String} {attributes : List Attribute} (inside : List Piece)
    {p : Piece} :
    p ∈ around tag attributes inside ↔ p ∈ around tag attributes [] ∨ p ∈ inside := by
  simp only [around, List.mem_cons, List.mem_append, List.not_mem_nil, false_or, or_false]
  tauto

/-- Where the pieces of a document come from. -/
theorem mem_pieces {s : Scene F} {config : Config F} {p : Piece} :
    p ∈ pieces s config ↔ p ∈ frame s ∨
      (∃ m, p ∈ (layout (marker config m)).2) ∨
      (∃ e ∈ s.edges, p ∈ (layout (edge e)).2) ∨
      (∃ l ∈ s.labels, p ∈ (layout (label l)).2) ∨
      (∃ n ∈ s.nodes, p ∈ (layout (disc config n)).2) ∨
      (∃ n ∈ s.nodes, p ∈ (layout (name n)).2) := by
  have hall : ∀ m : Marker, m ∈ Marker.all := fun m => by cases m <;> decide
  simp only [pieces, frame, mem_around (_ ++ _), mem_around (List.flatMap _ _),
    List.mem_append, List.mem_flatMap, hall, true_and]
  grind

/-! ### Tags -/

/-- The tags that documents are made of. -/
def outlines : List (Markup.Shape × String × List String) :=
  [(.start, "svg", ["xmlns", "width", "height"]), (.finish, "svg", []),
    (.start, "style", []), (.finish, "style", []),
    (.start, "defs", []), (.finish, "defs", []), (.start, "g", []), (.finish, "g", []),
    (.start, "marker",
      ["id", "markerWidth", "markerHeight", "refX", "refY", "orient", "markerUnits"]),
    (.lone, "path", ["d"]), (.finish, "marker", []),
    (.lone, "path", ["id", "class", "d", "transform"]),
    (.lone, "path", ["id", "class", "d", "transform", "marker-end"]),
    (.start, "text", ["class", "text-anchor", "dy", "transform"]),
    (.start, "textPath", ["href", "startOffset"]), (.finish, "textPath", []),
    (.lone, "circle", ["r", "transform"]),
    (.start, "text", ["class", "y", "text-anchor", "transform"]), (.finish, "text", [])]

theorem outline_mem_outlines {s : Scene F} {config : Config F} :
    ∀ p ∈ pieces s config, p.tag.outline ∈ outlines := by
  intro p hp
  rcases mem_pieces.mp hp with hp | ⟨m, hp⟩ | ⟨e, -, hp⟩ | ⟨l, -, hp⟩ | ⟨n, -, hp⟩ | ⟨n, -, hp⟩
  · simp only [frame, around, stylePieces, List.cons_append, List.nil_append, List.mem_cons,
      List.not_mem_nil, or_false] at hp
    rcases hp with rfl | rfl | rfl | rfl | rfl | rfl | rfl | rfl <;>
      simp [Tag.outline, outlines, sizeOf]
  · simp only [marker, layout, newline, List.mem_cons, List.not_mem_nil, or_false] at hp
    rcases hp with rfl | rfl | rfl <;> simp [Tag.outline, outlines]
  · simp only [edge, layout, newline, List.mem_cons, List.not_mem_nil, or_false] at hp
    rcases hmarker : e.marker? with - | m <;>
      simp [hp, hmarker, Tag.outline, outlines, markerEnd]
  · simp only [label, layout, newline, List.mem_cons, List.not_mem_nil, or_false] at hp
    rcases hp with rfl | rfl | rfl | rfl <;> simp [Tag.outline, outlines]
  · simp only [disc, layout, newline, List.mem_cons, List.not_mem_nil, or_false] at hp
    simp [hp, Tag.outline, outlines]
  · simp only [name, layout, newline, List.mem_cons, List.not_mem_nil, or_false] at hp
    rcases hp with rfl | rfl <;> simp [Tag.outline, outlines]

/-- Names of tags and attributes do not come from a dataset. -/
theorem wellNamed_of_mem_outlines {t : Tag} (h : t.outline ∈ outlines) : t.WellNamed := by
  have hall : ∀ o ∈ outlines, o.2.1 ≠ "" ∧ IsName o.2.1 ∧ (∀ n ∈ o.2.2, IsName n) ∧
      (o.1 = .finish → o.2.2 = []) := by decide
  obtain ⟨hne, hname, hattributes, hfinish⟩ := hall _ h
  exact ⟨hne, hname, fun a ha => hattributes _ (List.mem_map_of_mem ha),
    fun hshape => List.map_eq_nil_iff.mp (hfinish hshape)⟩

end Svg

/-- A document is read as the pieces of its scene, in escaped form. -/
theorem Scene.read_svg (s : Scene F) (config : Config F) :
    read (s.svg config).toList = some ((Svg.pieces s config).map Piece.escaped) := by
  have hlayout := Svg.layout_svgTokens s config
  rw [Scene.svg, read_written (by rw [hlayout]) fun p hp => ?_, hlayout]
  rw [hlayout] at hp
  exact Svg.wellNamed_of_mem_outlines (Svg.outline_mem_outlines p hp)

/-- What is read means the pieces of the scene. -/
theorem Scene.meanings_svg (s : Scene F) (config : Config F) :
    (read (s.svg config).toList).map (·.map Piece.meaning) = some (Svg.pieces s config) := by
  have hmeaning : Piece.meaning ∘ Piece.escaped = id := funext Piece.meaning_escaped
  rw [s.read_svg, Option.map_some, List.map_map, hmeaning, List.map_id]

/-! ### What a document says -/

namespace Svg

open Contents (edgeOf? labelOf? nameOf?)

/-- The frame has tags of its own. -/
theorem frame_name_ne {s : Scene F} {p : Piece} (h : p ∈ frame s) (tag : String)
    (htag : tag ∉ ["svg", "style", "defs", "g"]) : p.tag.name ≠ tag := by
  rintro rfl
  simp only [frame, around, stylePieces, List.cons_append, List.nil_append, List.mem_cons,
    List.not_mem_nil, or_false] at h
  rcases h with rfl | rfl | rfl | rfl | rfl | rfl | rfl | rfl <;> simp at htag

/-- Reading the pieces of a document one by one, where the frame says nothing. -/
theorem filterMap_pieces {β : Type} {f : Piece → Option β} (s : Scene F) (config : Config F)
    (hframe : ∀ p ∈ frame s, f p = none) :
    (pieces s config).filterMap f =
      (Marker.all.flatMap fun m => (layout (marker config m)).2.filterMap f) ++
      (s.edges.flatMap fun e => (layout (edge e)).2.filterMap f) ++
      (s.labels.flatMap fun l => (layout (label l)).2.filterMap f) ++
      (s.nodes.flatMap fun n => (layout (disc config n)).2.filterMap f) ++
      (s.nodes.flatMap fun n => (layout (name n)).2.filterMap f) := by
  simp only [frame, around, stylePieces, List.cons_append, List.nil_append, List.mem_cons,
    List.not_mem_nil, or_false, forall_eq_or_imp, forall_eq] at hframe
  simp only [pieces, around, stylePieces, List.cons_append, List.nil_append,
    List.filterMap_append, List.filterMap_cons, List.filterMap_nil, List.filterMap_flatMap,
    hframe, List.append_nil, List.append_assoc]

theorem markerEnd_eq (m : Marker) : markerEnd m = ⟨"marker-end", m.reference⟩ := by
  cases m <;> decide

theorem edgeOf?_edge (e : EdgeShape F) :
    (layout (edge e)).2.filterMap edgeOf? =
      [⟨e.id, e.kind.label, e.marker?.map Marker.reference⟩] := by
  rcases hmarker : e.marker? with - | m <;>
    simp [edge, layout, newline, edgeOf?, Tag.value?, hmarker, markerEnd_eq]

theorem labelOf?_label (l : EdgeLabel F) :
    (layout (label l)).2.filterMap labelOf? = [⟨l.pathId, l.text⟩] := by
  simp [label, layout, newline, labelOf?, Tag.value?, reference]

theorem nameOf?_name (n : NodeShape F) : (layout (name n)).2.filterMap nameOf? = [n.name] := by
  simp [name, layout, newline, nameOf?, Tag.value?]

theorem flatMap_nil_right {α β : Type} (as : List α) : (as.flatMap fun _ => ([] : List β)) = [] :=
  List.flatMap_eq_nil_iff.mpr fun _ _ => rfl

/-- **The pieces of a document say what its scene says.** -/
theorem ofPieces_pieces (s : Scene F) (config : Config F) :
    Contents.ofPieces (pieces s config) = s.contents := by
  have hedges := filterMap_pieces (f := edgeOf?) s config
    fun p hp => by simp [edgeOf?, frame_name_ne hp "path" (by decide)]
  have hlabels := filterMap_pieces (f := labelOf?) s config
    fun p hp => by simp [labelOf?, frame_name_ne hp "textPath" (by decide)]
  have hnames := filterMap_pieces (f := nameOf?) s config
    fun p hp => by simp [nameOf?, frame_name_ne hp "text" (by decide)]
  simp only [edgeOf?_edge] at hedges
  simp only [labelOf?_label] at hlabels
  simp only [nameOf?_name] at hnames
  rw [Contents.ofPieces, hedges, hlabels, hnames]
  simp [Scene.contents, marker, edge, label, disc, name, layout, newline, edgeOf?, labelOf?,
    nameOf?, Tag.value?, flatMap_nil_right, List.map_eq_flatMap]

end Svg

/-- The document of a scene says what the scene says. -/
theorem Scene.ofDocument?_svg (s : Scene F) (config : Config F) :
    Contents.ofDocument? (s.svg config) = some s.contents := by
  have hpieces := congrArg (Option.map Contents.ofPieces) (s.meanings_svg config)
  rw [Option.map_map, Option.map_some, Svg.ofPieces_pieces] at hpieces
  exact hpieces

/-! ### What a dataset cannot change -/

namespace Svg

/-- Which tags a document has and which attributes these have does not depend on types of
unknown edges, texts and names. -/
theorem outline_pieces_masked (s : Scene F) (config config' : Config F) :
    (pieces s.masked config').map (·.tag.outline) = (pieces s config).map (·.tag.outline) := by
  have hedge : ∀ e : EdgeShape F,
      (layout (edge { e with kind := e.kind.masked })).2.map (·.tag.outline) =
        (layout (edge e)).2.map (·.tag.outline) := by
    rintro ⟨id, kind, start, finish, offset⟩
    cases kind <;> rfl
  simp only [pieces, around, Scene.masked, List.map_cons, List.map_append, List.map_flatMap,
    List.flatMap_map, hedge]
  rfl

/-- A piece in escaped form that has references in types and texts only. -/
structure Guarded (p : Piece) : Prop extends p.IsEscaped where
  plainValues : ∀ a ∈ p.tag.attributes, a.name ≠ "class" → Plain a.value.toList
  plainText : p.tag.name ∉ ["text", "textPath"] → Plain p.text.toList

theorem guarded_escaped {p : Piece}
    (hvalues : ∀ a ∈ p.tag.attributes, a.name ≠ "class" → Plain a.value.toList)
    (htext : p.tag.name ∉ ["text", "textPath"] → Plain p.text.toList) : Guarded p.escaped where
  toIsEscaped := p.isEscaped_escaped
  plainValues := by
    intro a ha hname
    obtain ⟨b, hb, rfl⟩ := List.mem_map.mp ha
    have hplain := hvalues b hb hname
    rwa [Attribute.escaped, toList_escaped, escape_of_plain hplain]
  plainText := by
    intro hname
    have hplain := htext hname
    rwa [Piece.escaped, toList_escaped, escape_of_plain hplain]

/-- The texts of a document: blanks and the style rules, labels, and names. -/
theorem text_cases {s : Scene F} {config : Config F} {p : Piece} (hp : p ∈ pieces s config) :
    p.text ∈ ["", "\n", style] ∨
      (p.tag.name = "textPath" ∧ ∃ l ∈ s.labels, p.text = l.text) ∨
      (p.tag.name = "text" ∧ ∃ n ∈ s.nodes, p.text = n.name) := by
  rcases mem_pieces.mp hp with hp | ⟨m, hp⟩ | ⟨e, -, hp⟩ | ⟨l, hl, hp⟩ | ⟨n, -, hp⟩ | ⟨n, hn, hp⟩
  · simp only [frame, around, stylePieces, List.cons_append, List.nil_append, List.mem_cons,
      List.not_mem_nil, or_false] at hp
    rcases hp with rfl | rfl | rfl | rfl | rfl | rfl | rfl | rfl <;> simp
  · simp only [marker, layout, newline, List.mem_cons, List.not_mem_nil, or_false] at hp
    rcases hp with rfl | rfl | rfl <;> simp
  · simp only [edge, layout, newline, List.mem_cons, List.not_mem_nil, or_false] at hp
    simp [hp]
  · simp only [label, layout, newline, List.mem_cons, List.not_mem_nil, or_false] at hp
    rcases hp with rfl | rfl | rfl | rfl
    · simp
    · exact .inr (.inl ⟨rfl, l, hl, String.append_empty⟩)
    · simp
    · simp
  · simp only [disc, layout, newline, List.mem_cons, List.not_mem_nil, or_false] at hp
    simp [hp]
  · simp only [name, layout, newline, List.mem_cons, List.not_mem_nil, or_false] at hp
    rcases hp with rfl | rfl
    · exact .inr (.inr ⟨rfl, n, hn, String.append_empty⟩)
    · simp

theorem plain_style : Plain style.toList := by
  -- line by line: the rules as one text are slow to put together
  delta style
  simp only [String.toList_append, plain_append]
  refine ⟨⟨⟨⟨⟨⟨⟨⟨?_, ?_⟩, ?_⟩, ?_⟩, ?_⟩, ?_⟩, ?_⟩, ?_⟩, ?_⟩ <;> decide +kernel

theorem plainText_pieces {s : Scene F} {config : Config F} {p : Piece} (hp : p ∈ pieces s config)
    (hname : p.tag.name ∉ ["text", "textPath"]) : Plain p.text.toList := by
  rcases text_cases hp with htext | ⟨hlabel, -⟩ | ⟨htext, -⟩
  · simp only [List.mem_cons, List.not_mem_nil, or_false] at htext
    rcases htext with htext | htext | htext
    · rw [htext]
      decide
    · rw [htext]
      decide
    · rw [htext]
      exact plain_style
  · simp [hlabel] at hname
  · simp [htext] at hname

section Values

variable {P : Char → Prop} (hsign : ∀ c, isSign c = true → P c)
  (htext : ∀ x : F, Made P (Scalar.text x))
include hsign htext

theorem made_pair (separator : String) (h : Signs separator.toList) (v : Vec F) :
    Made P (pair separator v) := by
  simp only [pair, made_append]
  exact ⟨⟨htext v.x, .of_signs hsign h⟩, htext v.y⟩

theorem made_turn (l : EdgeLabel F) : Made P (turn l) := by
  unfold turn
  split
  · have hanchor := made_pair hsign htext "," (by decide) l.anchor
    simp only [made_append]
    exact ⟨⟨⟨⟨.of_signs hsign (by decide), htext _⟩, .of_signs hsign (by decide)⟩, hanchor⟩,
      .of_signs hsign (by decide)⟩
  · exact .of_signs hsign (by decide)

theorem made_place (n : NodeShape F) : Made P (place n) := by
  have hcenter := made_pair hsign htext "," (by decide) n.center
  simp only [place, made_append]
  exact ⟨⟨.of_signs hsign (by decide), hcenter⟩, .of_signs hsign (by decide)⟩

/-- Values are made of signs and numbers, but for the classes of edges. -/
theorem value_cases {s : Scene F} {config : Config F}
    (hids : ∀ e ∈ s.edges, Signs e.id.toList) (hpaths : ∀ l ∈ s.labels, Signs l.pathId.toList)
    {p : Piece} (hp : p ∈ pieces s config) {a : Attribute} (ha : a ∈ p.tag.attributes) :
    Made P a.value ∨ ∃ e ∈ s.edges, a = ⟨"class", "link " ++ e.kind.label⟩ := by
  have hsigns : ∀ t : String, Signs t.toList → Made P t := fun t h => .of_signs hsign h
  have hothers : (∀ b ∈ p.tag.attributes, Made P b.value) →
      Made P a.value ∨ ∃ e ∈ s.edges, a = ⟨"class", "link " ++ e.kind.label⟩ := fun h =>
    .inl (h a ha)
  rcases mem_pieces.mp hp with hp | ⟨m, hp⟩ | ⟨e, he, hp⟩ | ⟨l, hl, hp⟩ | ⟨n, -, hp⟩ | ⟨n, -, hp⟩
  · refine hothers ?_
    simp only [frame, around, stylePieces, sizeOf, List.cons_append, List.nil_append,
      List.mem_cons, List.not_mem_nil, or_false] at hp
    rcases hp with rfl | rfl | rfl | rfl | rfl | rfl | rfl | rfl <;>
      simp (disch := decide) [htext, hsigns]
  · refine hothers ?_
    have hid : Made P m.id := hsigns _ (by cases m <;> decide)
    simp only [marker, layout, newline, List.mem_cons, List.not_mem_nil, or_false] at hp
    rcases hp with rfl | rfl | rfl <;> simp (disch := decide) [htext, hid, hsigns]
  · have hstart := made_pair hsign htext "," (by decide) e.start
    have hfinish := made_pair hsign htext "," (by decide) e.finish
    have hoffset := made_pair hsign htext ", " (by decide) e.offset
    have hid := hsigns _ (hids e he)
    simp only [edge, layout, newline, List.mem_cons, List.not_mem_nil, or_false] at hp
    subst hp
    rcases List.mem_append.mp ha with ha | ha
    · simp only [List.mem_cons, List.not_mem_nil, or_false] at ha
      rcases ha with rfl | rfl | rfl | rfl
      · exact .inl hid
      · -- the one value that a dataset has a say in
        exact .inr ⟨e, he, rfl⟩
      · exact .inl (by simp (disch := decide) [hsigns, hstart, hfinish])
      · exact .inl (by simp (disch := decide) [hsigns, hoffset])
    · obtain ⟨m, -, rfl⟩ := Option.map_eq_some_iff.mp (Option.mem_toList.mp ha)
      exact .inl (hsigns _ (by cases m <;> decide))
  · refine hothers ?_
    have hpath := hsigns _ (hpaths l hl)
    have hturn := made_turn hsign htext l
    simp only [label, layout, newline, List.mem_cons, List.not_mem_nil, or_false] at hp
    rcases hp with rfl | rfl | rfl | rfl <;>
      simp (disch := decide) [hpath, hturn, reference, hsigns]
  · refine hothers ?_
    have hplace := made_place hsign htext n
    simp only [disc, layout, newline, List.mem_cons, List.not_mem_nil, or_false] at hp
    subst hp
    simp [htext, hplace]
  · refine hothers ?_
    have hplace := made_place hsign htext n
    simp only [name, layout, newline, List.mem_cons, List.not_mem_nil, or_false] at hp
    rcases hp with rfl | rfl <;> simp (disch := decide) [hplace, hsigns]

end Values

/-- Values that do not come from a dataset have no special characters. -/
theorem plainValues_pieces (htext : ∀ x : F, Plain (Scalar.text x).toList)
    {s : Scene F} {config : Config F}
    (hids : ∀ e ∈ s.edges, Signs e.id.toList) (hpaths : ∀ l ∈ s.labels, Signs l.pathId.toList)
    {p : Piece} (hp : p ∈ pieces s config) :
    ∀ a ∈ p.tag.attributes, a.name ≠ "class" → Plain a.value.toList := by
  intro a ha hname
  rcases value_cases not_mem_specials_of_isSign htext hids hpaths hp ha with hplain | ⟨e, -, rfl⟩
  · exact hplain
  · exact absurd rfl hname

end Svg

namespace Graph

open Svg (Guarded)

theorem signs_linkId (k : Nat) : Signs (linkId k).toList := by
  rw [linkId, String.toList_append, signs_append]
  exact ⟨by decide, signs_toString k⟩

/-- Edges are named by their places. -/
theorem signs_ids_tick (g : Graph F) (viewport : Viewport F) (config : Config F) :
    (∀ e ∈ (g.tick viewport config).2.edges, Signs e.id.toList) ∧
      ∀ l ∈ (g.tick viewport config).2.labels, Signs l.pathId.toList := by
  refine ⟨fun e he => ?_, fun l hl => ?_⟩
  · obtain ⟨k, hk, rfl⟩ := List.mem_mapIdx.mp he
    exact signs_linkId k
  · obtain ⟨k, hk, rfl⟩ := List.mem_mapIdx.mp hl
    exact signs_linkId k

theorem guarded_tick (htext : ∀ x : F, Plain (Scalar.text x).toList) (g : Graph F)
    (viewport : Viewport F) (config drawn : Config F) :
    ∀ p ∈ Svg.pieces (g.tick viewport config).2 drawn, Guarded p.escaped := by
  obtain ⟨hids, hpaths⟩ := g.signs_ids_tick viewport config
  intro p hp
  exact Svg.guarded_escaped (Svg.plainValues_pieces htext hids hpaths hp)
    (Svg.plainText_pieces hp)

end Graph

theorem Scene.outline_svg (s : Scene F) (config : Config F) :
    outline (s.svg config) = some ((Svg.pieces s config).map (·.tag.outline)) := by
  have houtline : ∀ p : Piece, p.escaped.tag.outline = p.tag.outline := by
    intro p
    simp [Piece.escaped, Tag.outline, Attribute.escaped]
  rw [outline, s.read_svg, Option.map_some, List.map_map]
  exact congrArg some (List.map_congr_left fun p _ => houtline p)

/-- **A drawing says what its scene says, and nothing that a dataset says changes its
tags.**  Of the scene that a tick draws, whatever the graph:

* the document can be read, every value and every text in it is in escaped form, and
  references stand in types and texts only;
* what is read are, in their order, the names and types of the edges with their markers,
  the labels with the edges they belong to, and the names of the nodes;
* so scenes that differ in any of these have different documents, and scenes that only
  differ in the types of unknown edges, the texts and the names have the same tags with
  the same attributes. -/
theorem Graph.svg_tick (htext : ∀ x : F, Plain (Scalar.text x).toList) (g : Graph F)
    (viewport : Viewport F) (config drawn : Config F) :
    let s := (g.tick viewport config).2
    (∃ ps, read (s.svg drawn).toList = some ps ∧ ∀ p ∈ ps, Svg.Guarded p) ∧
    Contents.ofDocument? (s.svg drawn) = some s.contents ∧
    ∀ (g' : Graph F) (viewport' : Viewport F) (config' drawn' : Config F),
      let s' := (g'.tick viewport' config').2
      (s.contents ≠ s'.contents → s.svg drawn ≠ s'.svg drawn') ∧
      (s.masked = s'.masked → outline (s.svg drawn) = outline (s'.svg drawn')) := by
  intro s
  refine ⟨⟨_, s.read_svg drawn, ?_⟩, s.ofDocument?_svg drawn, fun g' viewport' config' drawn' => ?_⟩
  · intro q hq
    obtain ⟨p, hp, rfl⟩ := List.mem_map.mp hq
    exact guarded_tick htext g viewport config drawn p hp
  · intro s'
    refine ⟨fun hne heq => hne ?_, fun hmasked => ?_⟩
    · have hs := s.ofDocument?_svg drawn
      have hs' := s'.ofDocument?_svg drawn'
      rw [heq, hs'] at hs
      exact (Option.some.inj hs).symm
    · rw [s.outline_svg, s'.outline_svg, ← Svg.outline_pieces_masked s drawn drawn, hmasked,
        Svg.outline_pieces_masked s' drawn' drawn]

/-- Names and a type that are markup, against plain ones. -/
theorem Graph.svg_tick_of_markup :
    let g : Graph Float32 :=
      ⟨#[⟨"<svc>", ⟨50, 60⟩, .zero, none⟩, ⟨"a&amp;b", ⟨200, 70⟩, .zero, none⟩],
        #[⟨0, 1, .other "x'/><g id=\"y", .straight, .zero⟩], true⟩
    let h : Graph Float32 :=
      ⟨#[⟨"a", ⟨50, 60⟩, .zero, none⟩, ⟨"b", ⟨200, 70⟩, .zero, none⟩],
        #[⟨0, 1, .other "timeout", .straight, .zero⟩], true⟩
    let s := (g.tick ⟨300, 200⟩ .standard).2
    let t := (h.tick ⟨300, 200⟩ .standard).2
    (∀ x : Float32, Plain (Scalar.text x).toList) ∧
    Contents.ofDocument? (s.svg .standard) =
      some ⟨[⟨"link-0", "x'/><g id=\"y", none⟩], [⟨"link-0", "x'/><g id=\"y"⟩],
        ["<svc>", "a&amp;b"]⟩ ∧
    s.svg .standard ≠ t.svg .standard ∧
    outline (s.svg .standard) = outline (t.svg .standard) := by
  intro g h s t
  have hcontents : s.contents =
      ⟨[⟨"link-0", "x'/><g id=\"y", none⟩], [⟨"link-0", "x'/><g id=\"y"⟩],
        ["<svc>", "a&amp;b"]⟩ := by decide +kernel
  have hne : s.contents ≠ t.contents := by
    rw [hcontents]
    decide +kernel
  have hmasked : s.masked = t.masked := by
    simp [s, t, g, h, Scene.masked, Graph.tick, Graph.bowed, Graph.edgeShape, Graph.edgeLabel,
      Graph.positionOf, Graph.nodeShape, Graph.clamped, Kind.masked]
  obtain ⟨-, hread, hothers⟩ :=
    Graph.svg_tick Single.plain_text g ⟨300, 200⟩ .standard .standard
  obtain ⟨hdiffer, hsame⟩ := hothers h ⟨300, 200⟩ .standard .standard
  exact ⟨Single.plain_text, hread.trans (congrArg some hcontents), hdiffer hne, hsame hmasked⟩

end ForceDiagram
