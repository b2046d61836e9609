/-
ForceDiagram/Proofs/Paint/Drawing.lean

A window and a document show the same drawing.

A scene has two renderings that group its parts differently: a window paints an arrowhead
right behind its edge and a name right behind its disc, a document refers to arrowheads
and has the names in a group of their own.  Both are read here into lists of marks.
`Painted.marks` goes through shapes, and only what follows at once makes an edge headed or
gives a disc its name; `Written.ofDocument?` goes through the pieces of the text of a
document.  The marks of a scene are then known on both sides, section by section
(`marks_shapes`, `ofDocument?_svg`).

Main result: the renderings of the scene that a tick draws correspond, mark by mark
(`Graph.drawings_tick`).  Only the positions of texts are left out, since these depend on
fonts.
-/
import ForceDiagram.Paint.Scene
import ForceDiagram.Proofs.Scene.Svg

namespace ForceDiagram

variable {F : Type} [Scalar F]

open Markup (Piece layout newline)

/-! ### What is painted -/

structure PaintedEdge (F : Type) where
  start : Vec F
  finish : Vec F
  /-- Whether an arrowhead is painted right behind the line. -/
  headed : Bool

structure PaintedLabel (F : Type) where
  text : String
  angle : F

structure PaintedNode (F : Type) where
  center : Vec F
  radius : F
  name : String

/-- What shapes show. -/
inductive Painted (F : Type) where
  | edge (e : PaintedEdge F)
  | label (l : PaintedLabel F)
  | node (n : PaintedNode F)
  /-- A shape that no scene has. -/
  | other (shape : Shape F)

namespace Painted

/-- What is seen in shapes, in their order. -/
def marks : List (Shape F) → List (Painted F)
  | .line start finish _ :: .polygon _ _ :: rest => .edge ⟨start, finish, true⟩ :: marks rest
  | .line start finish _ :: rest => .edge ⟨start, finish, false⟩ :: marks rest
  | .circle center radius _ _ :: .text name _ _ _ _ :: rest =>
    .node ⟨center, radius, name⟩ :: marks rest
  | .text content _ angle _ _ :: rest => .label ⟨content, angle⟩ :: marks rest
  | shape :: rest => .other shape :: marks rest
  | [] => []

/-- An edge as it is painted. -/
def ofEdge (origin : Vec F) (e : EdgeShape F) : PaintedEdge F :=
  ⟨e.start + e.offset + origin, e.finish + e.offset + origin, e.marker?.isSome⟩

def ofLabel (l : EdgeLabel F) : PaintedLabel F :=
  ⟨l.text, l.pathAngle + Scalar.radians (if l.flipped then 180 else 0)⟩

def ofNode (origin : Vec F) (config : Config F) (n : NodeShape F) : PaintedNode F :=
  ⟨n.center + origin, config.nodeRadius, n.name⟩

/-- No arrowhead is in front, for an edge before these shapes to take. -/
def Headless (shapes : List (Shape F)) : Prop :=
  ∀ corners fill rest, shapes ≠ .polygon corners fill :: rest

variable (origin : Vec F) (config : Config F)

theorem marks_edge (e : EdgeShape F) {rest : List (Shape F)} (h : Headless rest) :
    marks (Paint.edge origin config e ++ rest) = .edge (ofEdge origin e) :: marks rest := by
  rw [Paint.edge, ofEdge]
  rcases e.marker? with - | m
  · -- whatever comes next is not an arrowhead
    exact marks.eq_2 _ _ _ _ h
  · rfl

theorem headless_edges {rest : List (Shape F)} (h : Headless rest) :
    ∀ es : List (EdgeShape F), Headless (es.flatMap (Paint.edge origin config) ++ rest)
  | [] => h
  | _ :: _ => fun _ _ _ heq => by cases heq

theorem marks_edges (es : List (EdgeShape F)) {rest : List (Shape F)} (h : Headless rest) :
    marks (es.flatMap (Paint.edge origin config) ++ rest) =
      (es.map (ofEdge origin)).map .edge ++ marks rest := by
  induction es with
  | nil => rfl
  | cons e es ih =>
    rw [List.flatMap_cons, List.append_assoc, marks_edge _ _ _ (headless_edges _ _ h es), ih]
    rfl

theorem marks_labels (ls : List (EdgeLabel F)) (rest : List (Shape F)) :
    marks (ls.map (Paint.label origin) ++ rest) = (ls.map ofLabel).map .label ++ marks rest := by
  induction ls with
  | nil => rfl
  | cons l ls ih =>
    show .label (ofLabel l) :: marks (ls.map (Paint.label origin) ++ rest) = _
    rw [ih]
    rfl

theorem marks_nodes (ns : List (NodeShape F)) :
    marks (ns.flatMap (Paint.node origin config)) =
      (ns.map (ofNode origin config)).map .node := by
  induction ns with
  | nil => rfl
  | cons n ns ih =>
    show .node (ofNode origin config n) :: marks (ns.flatMap (Paint.node origin config)) = _
    rw [ih]
    rfl

theorem headless_labels (ls : List (EdgeLabel F)) (ns : List (NodeShape F)) :
    Headless (ls.map (Paint.label origin) ++ ns.flatMap (Paint.node origin config)) := by
  intro corners fill rest heq
  rcases ls with - | ⟨l, ls⟩
  · rcases ns with - | ⟨n, ns⟩ <;> cases heq
  · cases heq

end Painted

/-- The edges, labels and nodes of a painting. -/
structure Painting (F : Type) where
  edges : List (PaintedEdge F)
  labels : List (PaintedLabel F)
  nodes : List (PaintedNode F)

/-- The marks of a painting: all edges, then all labels, then all nodes. -/
def Painting.marks (p : Painting F) : List (Painted F) :=
  p.edges.map .edge ++ p.labels.map .label ++ p.nodes.map .node

/-- A scene as it is painted. -/
def Scene.painting (s : Scene F) (origin : Vec F) (config : Config F) : Painting F where
  edges := s.edges.map (Painted.ofEdge origin)
  labels := s.labels.map Painted.ofLabel
  nodes := s.nodes.map (Painted.ofNode origin config)

theorem Scene.marks_shapes (s : Scene F) (origin : Vec F) (config : Config F) :
    Painted.marks (s.shapes origin config) = (s.painting origin config).marks := by
  have hrest := Painted.headless_labels origin config s.labels s.nodes
  rw [Scene.shapes, List.append_assoc, Painted.marks_edges _ _ _ hrest, Painted.marks_labels,
    Painted.marks_nodes, ← List.append_assoc]
  rfl

/-! ### What is written -/

structure WrittenEdge where
  /-- The ends of the path. -/
  data : String
  /-- The shift of the path as a whole. -/
  shift : String
  /-- The arrowhead at its end. -/
  marker : Option String

structure WrittenLabel where
  turn : String
  text : String

structure WrittenNode where
  radius : String
  place : String
  name : String

/-- What the pieces of a document show. -/
inductive Written where
  | edge (e : WrittenEdge)
  /-- The turn of the label that follows. -/
  | turn (turn : String)
  | label (text : String)
  | disc (radius place : String)
  | name (place name : String)

namespace Written

/-- What a piece shows.  The path of an arrowhead is not shifted, and is no edge. -/
def of? (p : Piece) : Option Written :=
  if p.tag.shape = .finish then none
  else if p.tag.name = "path" then do
    return .edge ⟨← p.tag.value? "d", ← p.tag.value? "transform", p.tag.value? "marker-end"⟩
  else if p.tag.name = "text" then
    if p.tag.value? "class" = some "node-label" then
      (p.tag.value? "transform").map (.name · p.text)
    else (p.tag.value? "transform").map .turn
  else if p.tag.name = "textPath" then some (.label p.text)
  else if p.tag.name = "circle" then do
    return .disc (← p.tag.value? "r") (← p.tag.value? "transform")
  else none

/-- What the text of a document shows, in its order. -/
def ofDocument? (document : String) : Option (List Written) :=
  (Markup.read document.toList).map fun pieces => (pieces.map Piece.meaning).filterMap of?

def ofEdge (e : EdgeShape F) : WrittenEdge where
  data := "M" ++ Svg.pair "," e.start ++ " L" ++ Svg.pair "," e.finish
  shift := "translate(" ++ Svg.pair ", " e.offset ++ ")"
  marker := e.marker?.map Marker.reference

def ofLabel (l : EdgeLabel F) : WrittenLabel := ⟨Svg.turn l, l.text⟩

def ofNode (config : Config F) (n : NodeShape F) : WrittenNode :=
  ⟨Scalar.text config.nodeRadius, Svg.place n, n.name⟩

theorem of?_marker (config : Config F) (m : Marker) :
    (layout (Svg.marker config m)).2.filterMap of? = [] := by
  simp [Svg.marker, layout, newline, of?, Markup.Tag.value?]

theorem of?_edge (e : EdgeShape F) :
    (layout (Svg.edge e)).2.filterMap of? = [.edge (ofEdge e)] := by
  rcases hmarker : e.marker? with - | m <;>
    simp [Svg.edge, layout, newline, of?, Markup.Tag.value?, hmarker, Svg.markerEnd_eq, ofEdge]

theorem of?_label (l : EdgeLabel F) :
    (layout (Svg.label l)).2.filterMap of? = [.turn (Svg.turn l), .label l.text] := by
  simp [Svg.label, layout, newline, of?, Markup.Tag.value?]

theorem of?_disc (config : Config F) (n : NodeShape F) :
    (layout (Svg.disc config n)).2.filterMap of? =
      [.disc (Scalar.text config.nodeRadius) (Svg.place n)] := by
  simp [Svg.disc, layout, newline, of?, Markup.Tag.value?]

theorem of?_name (n : NodeShape F) :
    (layout (Svg.name n)).2.filterMap of? = [.name (Svg.place n) n.name] := by
  simp [Svg.name, layout, newline, of?, Markup.Tag.value?]

theorem of?_frame {s : Scene F} : ∀ p ∈ Svg.frame s, of? p = none := by
  intro p hp
  have hname := Svg.frame_name_ne hp
  simp [of?, hname "path" (by decide), hname "text" (by decide), hname "textPath" (by decide),
    hname "circle" (by decide)]

end Written

/-- The edges, labels and nodes of a document. -/
structure Writing where
  edges : List WrittenEdge
  labels : List WrittenLabel
  nodes : List WrittenNode

/-- The marks of a document: all edges, then all labels, then all discs, and behind these
the names of the nodes, each at the place of its disc. -/
def Writing.marks (w : Writing) : List Written :=
  w.edges.map .edge ++ w.labels.flatMap (fun l => [.turn l.turn, .label l.text]) ++
    w.nodes.map (fun n => .disc n.radius n.place) ++ w.nodes.map (fun n => .name n.place n.name)

/-- A scene as it is written. -/
def Scene.writing (s : Scene F) (config : Config F) : Writing where
  edges := s.edges.map Written.ofEdge
  labels := s.labels.map Written.ofLabel
  nodes := s.nodes.map (Written.ofNode config)

theorem Scene.marks_svg (s : Scene F) (config : Config F) :
    Written.ofDocument? (s.svg config) = some (s.writing config).marks := by
  have hmarks : (Svg.pieces s config).filterMap Written.of? = (s.writing config).marks := by
    rw [Svg.filterMap_pieces s config Written.of?_frame]
    simp only [Written.of?_marker, Written.of?_edge, Written.of?_label, Written.of?_disc,
      Written.of?_name, Svg.flatMap_nil_right, List.nil_append, ← List.map_eq_flatMap]
    rw [Writing.marks, Scene.writing, List.map_map, List.flatMap_map, List.map_map, List.map_map]
    rfl
  have hpieces := congrArg (Option.map (List.filterMap Written.of?)) (s.meanings_svg config)
  rw [Option.map_map, Option.map_some, hmarks] at hpieces
  exact hpieces

/-! ### Mark by mark -/

/-- Parts of a scene that are painted and written one by one. -/
structure Alike {α β γ : Type} (Same : α → β → γ → Prop) (parts : List α) (painted : List β)
    (written : List γ) : Prop where
  length_painted : painted.length = parts.length
  length_written : written.length = parts.length
  same : ∀ (k : Nat) part p w, parts[k]? = some part → painted[k]? = some p → written[k]? = some w →
    Same part p w

theorem alike_map {α β γ : Type} {Same : α → β → γ → Prop} {paint : α → β} {write : α → γ}
    (h : ∀ part, Same part (paint part) (write part)) (parts : List α) :
    Alike Same parts (parts.map paint) (parts.map write) where
  length_painted := List.length_map ..
  length_written := List.length_map ..
  same := by
    intro k part p w hpart hp hw
    rw [List.getElem?_map, hpart] at hp hw
    obtain rfl := Option.some.inj hp
    obtain rfl := Option.some.inj hw
    exact h part

/-- An edge runs between the same points, shifted as a whole, and has an arrowhead on
both sides or on none. -/
structure SameEdge (origin : Vec F) (e : EdgeShape F) (p : PaintedEdge F) (w : WrittenEdge) :
    Prop where
  start : p.start = (e.start + e.offset) + origin
  finish : p.finish = (e.finish + e.offset) + origin
  data : w.data = "M" ++ Svg.pair "," e.start ++ " L" ++ Svg.pair "," e.finish
  shift : w.shift = "translate(" ++ Svg.pair ", " e.offset ++ ")"
  headed : p.headed = true ↔ w.marker.isSome = true

/-- The direction of an edge. -/
def EdgeShape.angle (e : EdgeShape F) : F :=
  Scalar.atan2 (e.finish - e.start).y (e.finish - e.start).x

/-- The middle of an edge as it is drawn. -/
def EdgeShape.middle (e : EdgeShape F) : Vec F := (e.start + e.finish) * (0.5 : F) + e.offset

/-- A label has the same text, and is turned by half a turn on both sides or on none. -/
structure SameLabel (e : EdgeShape F) (p : PaintedLabel F) (w : WrittenLabel) : Prop where
  text : p.text = w.text
  angle : p.angle = e.angle + Scalar.radians (if w.turn = "rotate(0)" then 0 else 180)
  turn : w.turn = if e.finish.x < e.start.x then
      "rotate(" ++ Scalar.text (180 : F) ++ "," ++ Svg.pair "," e.middle ++ ")"
    else "rotate(0)"

/-- A node is a disc of the same radius at the same place, with the same name. -/
structure SameNode (origin : Vec F) (config : Config F) (n : NodeShape F) (p : PaintedNode F)
    (w : WrittenNode) : Prop where
  center : p.center = n.center + origin
  place : w.place = "translate(" ++ Svg.pair "," n.center ++ ")"
  radius : p.radius = config.nodeRadius ∧ w.radius = Scalar.text config.nodeRadius
  name : p.name = w.name

theorem sameEdge (origin : Vec F) (e : EdgeShape F) :
    SameEdge origin e (Painted.ofEdge origin e) (Written.ofEdge e) where
  start := rfl
  finish := rfl
  data := rfl
  shift := rfl
  headed := by
    show e.marker?.isSome = true ↔ (e.marker?.map Marker.reference).isSome = true
    rw [Option.isSome_map]

/-- A turn about a point is told from none by the separators of its arguments. -/
theorem turn_ne_upright (angle point : String) :
    "rotate(" ++ angle ++ "," ++ point ++ ")" ≠ "rotate(0)" := by
  intro heq
  have hmem : ',' ∈ ("rotate(" ++ angle ++ "," ++ point ++ ")").toList := by
    simp [String.toList_append]
  rw [heq] at hmem
  revert hmem
  decide

/-- The label of an edge. -/
def EdgeShape.label (e : EdgeShape F) : EdgeLabel F where
  pathId := e.id
  text := e.kind.label
  anchor := e.middle
  flipped := e.finish.x < e.start.x
  pathAngle := e.angle

theorem sameLabel (e : EdgeShape F) :
    SameLabel e (Painted.ofLabel e.label) (Written.ofLabel e.label) := by
  have hturn : Svg.turn e.label = if e.finish.x < e.start.x then
      "rotate(" ++ Scalar.text (180 : F) ++ "," ++ Svg.pair "," e.middle ++ ")"
    else "rotate(0)" := by
    simp only [Svg.turn, EdgeShape.label, EdgeLabel.rotation, decide_eq_true_eq]
    split <;> rfl
  refine ⟨rfl, ?_, hturn⟩
  show e.angle + Scalar.radians (if decide (e.finish.x < e.start.x) = true then 180 else 0) =
    e.angle + Scalar.radians (if Svg.turn e.label = "rotate(0)" then 0 else 180)
  rw [hturn]
  by_cases hleft : e.finish.x < e.start.x
  · rw [if_pos (decide_eq_true hleft), if_pos hleft, if_neg (turn_ne_upright _ _)]
  · rw [if_neg (by simpa using hleft), if_neg hleft, if_pos rfl]

theorem sameNode (origin : Vec F) (config : Config F) (n : NodeShape F) :
    SameNode origin config n (Painted.ofNode origin config n) (Written.ofNode config n) :=
  ⟨rfl, rfl, ⟨rfl, rfl⟩, rfl⟩

namespace Graph

/-- Each edge that a tick draws has its label. -/
theorem labels_tick (viewport : Viewport F) (config : Config F) (g : Graph F) :
    (g.tick viewport config).2.labels =
      (g.tick viewport config).2.edges.map EdgeShape.label := by
  simp only [tick, List.mapIdx_eq_zipIdx_map, List.map_map]
  rfl

/-- **A window and a document show the same drawing.**  For the scene that a tick draws,
for every configuration and wherever its origin is put:

* in the window all edges come first, then all labels, then all nodes, and in the
  document likewise, with the names of the nodes behind their discs;
* the `k`-th edge is the line between the ends that its path states, shifted as the path
  is and by the origin, and an arrowhead follows it at once if the path has one;
* the `k`-th label has the same text, and half a turn is added to the direction of its
  edge if it is turned about its anchor in the document, and only then;
* the `k`-th disc has the same radius and the same center, shifted by the origin, and the
  same name. -/
theorem drawings_tick (g : Graph F) (viewport : Viewport F) (config drawn : Config F)
    (origin : Vec F) :
    let s := (g.tick viewport config).2
    ∃ (painting : Painting F) (writing : Writing),
      Painted.marks (s.shapes origin drawn) = painting.marks ∧
      Written.ofDocument? (s.svg drawn) = some writing.marks ∧
      Alike (SameEdge origin) s.edges painting.edges writing.edges ∧
      Alike SameLabel s.edges painting.labels writing.labels ∧
      Alike (SameNode origin drawn) s.nodes painting.nodes writing.nodes := by
  intro s
  refine ⟨s.painting origin drawn, s.writing drawn, s.marks_shapes origin drawn,
    s.marks_svg drawn, alike_map (sameEdge origin) s.edges, ?_,
    alike_map (sameNode origin drawn) s.nodes⟩
  have hlabels : s.labels = s.edges.map EdgeShape.label := g.labels_tick viewport config
  have hsame : Alike SameLabel s.edges (s.edges.map fun e => Painted.ofLabel e.label)
      (s.edges.map fun e => Written.ofLabel e.label) := alike_map sameLabel s.edges
  rw [Scene.painting, Scene.writing, hlabels, List.map_map, List.map_map]
  exact hsame

end Graph

end ForceDiagram
