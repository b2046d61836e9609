/-
ForceDiagram/Proofs/Scene/Looks.lean

How the type of an edge shows: by its marker, by its colour in a window, and in a document
by its classes, which are what the style rules go by.

The marker and the colour come from the type read as one of the known ones, so a known
type has its marker and its colour and no other type has either (`Marker.ofKind?_ofLabel_iff`,
`Kind.color_eq_iff`).  The classes come from the text of the type: they are its words,
behind the class of all edges (`words_link`).  So a type of one word shows in the same
way everywhere, and a type of several words has the class of every known type among them.

Main result: what shows of the types of a dataset, edge by edge (`Graph.looks_tick`).
-/
import ForceDiagram.Proofs.Command.Export
import ForceDiagram.Proofs.Paint.Drawing

namespace ForceDiagram

variable {F : Type} [Scalar F]

open Markup

/-! ### Words -/

/-- The characters between the classes in a value. -/
def isSeparator (c : Char) : Bool := c ∈ [' ', '\t', '\n', '\x0c', '\r']

/-- The words of a text: what stands between separators. -/
def words (s : String) : List String :=
  ((s.toList.splitOnP isSeparator).filter (· ≠ [])).map String.ofList

/-- A text without separators. -/
def Unbroken (s : String) : Prop := Made (fun c => isSeparator c = false) s

instance (s : String) : Decidable (Unbroken s) := inferInstanceAs (Decidable (Made _ s))

/-- A text without separators is its only word. -/
theorem mem_words_of_unbroken {s w : String} (h : Unbroken s) (hw : w ≠ "") :
    w ∈ words s ↔ s = w := by
  rw [words, List.splitOnP_eq_singleton h]
  by_cases hs : s = ""
  · subst hs
    exact iff_of_false List.not_mem_nil hw.symm
  · have hkept : [s.toList].filter (· ≠ []) = [s.toList] := by
      simpa using hs
    rw [hkept, List.map_singleton, String.ofList_toList, List.mem_singleton, eq_comm]

example : words " late\tresponse " = ["late", "response"] := by decide

/-- The classes of an edge are that of all edges and the words of its type. -/
theorem words_link (s : String) : words ("link " ++ s) = "link" :: words s := by
  have hlink : ("link " ++ s).toList = "link".toList ++ ' ' :: s.toList := by
    rw [String.toList_append]
    rfl
  have hunbroken : Unbroken "link" := by decide
  rw [words, hlink, List.splitOnP_append_cons_of_forall_mem hunbroken ' ' (by decide)]
  rfl

/-! ### Known types -/

/-- The colour of a known type. -/
def Marker.color (m : Marker) : Color := (Kind.ofLabel m.id).color

theorem Marker.ofKind?_ofLabel_iff (s : String) (m : Marker) :
    Marker.ofKind? (.ofLabel s) = some m ↔ s = m.id := by
  unfold Kind.ofLabel
  split
  · subst s
    cases m <;> decide
  · split
    · subst s
      cases m <;> decide
    · split
      · subst s
        cases m <;> decide
      · cases m <;> simp [Marker.ofKind?, Marker.id, *]

/-- No other type is painted like a known one. -/
theorem Kind.color_eq_iff (kind : Kind) (m : Marker) :
    kind.color = m.color ↔ Marker.ofKind? kind = some m := by
  cases kind with
  | other label =>
    refine iff_of_false ?_ nofun
    cases m <;> simp [color, Marker.color, ofLabel, Marker.id, Color.solid]
  | requestRejected | requestAccepted | response => cases m <;> decide

theorem Marker.reference_injective : Function.Injective Marker.reference := by
  intro m m' h
  cases m <;> cases m' <;> first | rfl | exact absurd h (by decide)

/-! ### Style rules -/

/-- A colour as style rules have it. -/
def Color.hex (c : Color) : String :=
  String.ofList ('#' :: [c.red, c.green, c.blue].flatMap fun part =>
    [Nat.digitChar (part.toNat / 16), Nat.digitChar (part.toNat % 16)])

/-- The style rule that colours the edges with the class of a known type. -/
def Marker.linkRule (m : Marker) : String :=
  "\n.link." ++ m.id ++ " \x7b stroke: " ++ m.color.hex ++ "; \x7d"

theorem Svg.style_eq_linkRules : ∃ before after, style = before ++
    (Marker.requestRejected.linkRule ++ (Marker.requestAccepted.linkRule ++
      (Marker.response.linkRule ++ after))) := by
  have hrejected : Marker.requestRejected.linkRule =
      "\n.link.request-rejected \x7b stroke: #d9534f; \x7d" := by decide +kernel
  have haccepted : Marker.requestAccepted.linkRule =
      "\n.link.request-accepted \x7b stroke: #5cb85c; \x7d" := by decide +kernel
  have hresponse : Marker.response.linkRule =
      "\n.link.response \x7b stroke: #337ab7; \x7d" := by decide +kernel
  refine ⟨"\n.link \x7b fill: none; stroke: #666; stroke-width: 1.5px; \x7d", ?after, ?lines⟩
  case lines =>
    rw [hrejected, haccepted, hresponse]
    delta style
    simp only [String.append_assoc]
    rfl

/-- Each known type has its rule. -/
theorem Svg.style_of_marker (m : Marker) :
    ∃ before after, style = before ++ m.linkRule ++ after := by
  obtain ⟨before, after, hstyle⟩ := style_eq_linkRules
  rw [hstyle]
  cases m with
  | requestRejected => exact ⟨before, _, by rw [String.append_assoc]⟩
  | requestAccepted =>
    exact ⟨before ++ Marker.requestRejected.linkRule, _, by simp only [String.append_assoc]; rfl⟩
  | response =>
    exact ⟨before ++ Marker.requestRejected.linkRule ++ Marker.requestAccepted.linkRule, _, by
      simp only [String.append_assoc]; rfl⟩

/-! ### What documents and windows show -/

/-- What a document shows of the type of an edge. -/
structure LinkLook where
  classes : List String
  marker : Option String
deriving DecidableEq, Repr

/-- Of the paths in a document the edges have classes. -/
def lookOf? (p : Piece) : Option LinkLook :=
  if p.tag.name = "path" then
    (p.tag.value? "class").map fun value => ⟨words value, p.tag.value? "marker-end"⟩
  else none

/-- The colour of a line. -/
def strokeOf? : Shape F → Option Color
  | .line _ _ stroke => some stroke.color
  | _ => none

def Kind.look (kind : Kind) : LinkLook :=
  ⟨words ("link " ++ kind.label), (Marker.ofKind? kind).map Marker.reference⟩

theorem Scene.looks_pieces (s : Scene F) (config : Config F) :
    (Svg.pieces s config).filterMap lookOf? = (s.edges.map (·.kind)).map Kind.look := by
  have hedge : ∀ e : EdgeShape F, (layout (Svg.edge e)).2.filterMap lookOf? = [e.kind.look] := by
    intro e
    rcases hmarker : Marker.ofKind? e.kind with - | m <;>
      simp [Svg.edge, layout, newline, lookOf?, Tag.value?, EdgeShape.marker?, hmarker,
        Svg.markerEnd_eq, Kind.look]
  rw [Svg.filterMap_pieces (f := lookOf?) s config
    fun p hp => if_neg (Svg.frame_name_ne hp "path" (by decide)), List.map_map,
    List.map_eq_flatMap]
  simp [hedge, Svg.marker, Svg.label, Svg.disc, Svg.name, layout, newline, lookOf?, Tag.value?,
    Svg.flatMap_nil_right]

theorem Scene.strokes_shapes (s : Scene F) (origin : Vec F) (config : Config F) :
    (s.shapes origin config).filterMap strokeOf? = (s.edges.map (·.kind)).map Kind.color := by
  have hedge : ∀ e : EdgeShape F,
      (Paint.edge origin config e).filterMap strokeOf? = [e.kind.color] := by
    intro e
    rcases hmarker : e.marker? with - | m <;> simp [Paint.edge, strokeOf?, hmarker]
  have hlabels : (s.labels.map (Paint.label origin)).filterMap strokeOf? = [] := by
    simp [Paint.label, strokeOf?]
  have hnode : ∀ n : NodeShape F, (Paint.node origin config n).filterMap strokeOf? = [] :=
    fun _ => rfl
  rw [Scene.shapes, List.filterMap_append, List.filterMap_append, List.filterMap_flatMap, hlabels,
    List.filterMap_flatMap, List.map_map, List.map_eq_flatMap]
  simp [hedge, hnode, Svg.flatMap_nil_right]

/-! ### Types -/

/-- How the type of an edge shows where a known type is looked for. -/
structure Shown (m : Marker) (kind : String) (stroke : Color) (look : LinkLook) : Prop where
  marker : look.marker = some m.reference ↔ kind = m.id
  stroke : stroke = m.color ↔ kind = m.id
  /-- The class of the known type is there if the type is it, -/
  known : kind = m.id → m.id ∈ look.classes
  /-- and otherwise if it is one of several words. -/
  word : m.id ∈ look.classes ↔ m.id ∈ words kind
  unbroken : Unbroken kind → (m.id ∈ look.classes ↔ kind = m.id)

theorem shown_ofLabel (m : Marker) (kind : String) :
    Shown m kind (Kind.ofLabel kind).color (Kind.ofLabel kind).look := by
  -- no known type is the class of all edges, so it can only be one of the words
  have hne : m.id ≠ "link" ∧ m.id ≠ "" ∧ Unbroken m.id := by cases m <;> decide
  have hword : m.id ∈ (Kind.ofLabel kind).look.classes ↔ m.id ∈ words kind := by
    rw [Kind.look, Kind.label_ofLabel, words_link, List.mem_cons, or_iff_right hne.1]
  have hunbroken : Unbroken kind → (m.id ∈ words kind ↔ kind = m.id) := fun h =>
    mem_words_of_unbroken h hne.2.1
  refine ⟨?_, ?_, fun h => ?_, hword, fun h => hword.trans (hunbroken h)⟩
  · rw [Kind.look, ← Marker.ofKind?_ofLabel_iff, ← Option.map_some,
      (Option.map_injective Marker.reference_injective).eq_iff]
  · rw [Kind.color_eq_iff, Marker.ofKind?_ofLabel_iff]
  · subst h
    exact hword.mpr ((hunbroken hne.2.2).mpr rfl)

/-- What shows of the types of records in shapes and in the pieces of a document. -/
structure TypesShown (records : List Record) (shapes : List (Shape F)) (ps : List Piece) :
    Prop where
  rules : ∃ p ∈ ps, p.tag.name = "style" ∧
    ∀ m : Marker, ∃ before after, p.text = before ++ m.linkRule ++ after
  edges : Alike (fun r stroke look => ∀ m, Shown m r.kind stroke look) records
    (shapes.filterMap strokeOf?) (ps.filterMap lookOf?)

namespace Graph

/-- The types of the edges of a scene are those of the records. -/
theorem kinds_tick {g : Graph F} {records : List Record}
    (h : g.shape = (ofRecords records : Graph F).shape) (viewport : Viewport F)
    (config : Config F) :
    (g.tick viewport config).2.edges.map (·.kind) = records.map fun r => Kind.ofLabel r.kind := by
  have htick : (g.tick viewport config).1.shape = (ofRecords records : Graph F).shape :=
    (shape_tick viewport config g).trans h
  have hedges : (g.tick viewport config).2.edges.map (·.kind) =
      (g.tick viewport config).1.links.toList.mapIdx fun _ l => l.kind := map_mapIdx _ _ _
  rw [hedges, mapIdx_links_of_shape htick fun _ kind => kind]
  exact List.ext_getElem (by simp) fun _ _ _ => by simp

/-- **How the types of a dataset show.**  Of the scene that a tick draws of a dataset's
graph, wherever its nodes are, and for each of the known types, the document has the rule
that colours the edges with its class as a window paints it, and of the `k`-th edge

* the path has the marker of the known type, and the window paints the edge in its
  colour, if and only if it is the type of the `k`-th record;
* the path has its class if and only if it is one of the words of that type, so always
  if it is the type, and if the type has no separators then only if it is. -/
theorem looks_tick {g : Graph F} {records : List Record}
    (h : g.shape = (ofRecords records : Graph F).shape) (viewport : Viewport F)
    (config drawn : Config F) (origin : Vec F) :
    let s := (g.tick viewport config).2
    ∃ ps, (read (s.svg drawn).toList).map (·.map Piece.meaning) = some ps ∧
      TypesShown records (s.shapes origin drawn) ps := by
  intro s
  have hkinds : s.edges.map (·.kind) = records.map fun r => Kind.ofLabel r.kind :=
    kinds_tick h viewport config
  refine ⟨_, s.meanings_svg drawn, ⟨?_, ?_⟩⟩
  · have hmem : ∀ p ∈ Svg.stylePieces, p ∈ Svg.pieces s drawn := fun p hp =>
      Svg.mem_pieces.mpr (.inl (by simp [Svg.frame, hp]))
    exact ⟨_, hmem _ List.mem_cons_self, rfl, Svg.style_of_marker⟩
  · have hstrokes : (s.shapes origin drawn).filterMap strokeOf? =
        records.map fun r => (Kind.ofLabel r.kind).color := by
      rw [s.strokes_shapes, hkinds, List.map_map]
      rfl
    have hlooks : (Svg.pieces s drawn).filterMap lookOf? =
        records.map fun r => (Kind.ofLabel r.kind).look := by
      rw [s.looks_pieces, hkinds, List.map_map]
      rfl
    rw [hstrokes, hlooks]
    exact alike_map (fun r m => shown_ofLabel m r.kind) records

/-- A known type next to one that is no known type, though it begins like one. -/
theorem looks_tick_of_two :
    let records : List Record := [⟨"a", "b", "response"⟩, ⟨"b", "a", "response-time"⟩]
    let g : Graph Float32 := ofRecords records
    let s := (g.tick ⟨300, 200⟩ .standard).2
    g.shape = (ofRecords records : Graph Float32).shape ∧
      ∃ ps, (read (s.svg .standard).toList).map (·.map Piece.meaning) = some ps ∧
        TypesShown records (s.shapes .zero .standard) ps :=
  ⟨rfl, looks_tick rfl _ _ _ _⟩

/-- A type of two words, one of them a known type: the path has the class of that type,
without its marker, and the window paints the edge like those of any other type. -/
theorem look_of_late_response :
    let records : List Record := [⟨"a", "b", "late response"⟩]
    let s := ((ofRecords records : Graph Float32).tick ⟨300, 200⟩ .standard).2
    "late response" ≠ Marker.response.id ∧
      ∃ ps look, (read (s.svg .standard).toList).map (·.map Piece.meaning) = some ps ∧
        ps.filterMap lookOf? = [look] ∧ Marker.response.id ∈ look.classes ∧
        look.marker ≠ some Marker.response.reference ∧
        (s.shapes .zero .standard).filterMap strokeOf? = [(Kind.other "late response").color] := by
  intro records s
  have hkinds : s.edges.map (·.kind) = [.other "late response"] := kinds_tick rfl _ _
  refine ⟨by decide, _, (Kind.other "late response").look, s.meanings_svg .standard, ?_, ?_, ?_, ?_⟩
  · rw [s.looks_pieces, hkinds, List.map_singleton]
  · decide
  · decide
  · rw [s.strokes_shapes, hkinds, List.map_singleton]

end Graph

end ForceDiagram
