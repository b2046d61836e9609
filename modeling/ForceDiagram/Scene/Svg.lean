/-
ForceDiagram/Scene/Svg.lean

A scene as an SVG document.

The document has the size of the viewport.  Its style rules colour edges by
their class, which is their type, and its definitions hold the three arrowheads.
Then come the edges, their labels, the discs of the nodes and their names, each
in a group of its own and in the order of the scene, so that edges lie under
labels and labels under nodes.  A label refers to the path of its edge and is
written along it.
-/
import ForceDiagram.Markup.Token
import ForceDiagram.Scene.Basic

namespace ForceDiagram

open Markup (Attribute Token newline block)

variable {F : Type} [Scalar F]

namespace Svg

/-- The style rules. -/
def style : String :=
  "\n.link \x7b fill: none; stroke: #666; stroke-width: 1.5px; \x7d" ++
  "\n.link.request-rejected \x7b stroke: #d9534f; \x7d" ++
  "\n.link.request-accepted \x7b stroke: #5cb85c; \x7d" ++
  "\n.link.response \x7b stroke: #337ab7; \x7d" ++
  "\nmarker#request-rejected \x7b fill: #d9534f; \x7d" ++
  "\nmarker#request-accepted \x7b fill: #5cb85c; \x7d" ++
  "\nmarker#response \x7b fill: #337ab7; \x7d" ++
  "\ncircle \x7b fill: #ccc; stroke: #333; stroke-width: 1.5px; \x7d" ++
  "\n.link-label, .node-label \x7b font: 11px sans-serif; pointer-events: none; \x7d\n"

/-- Two coordinates with a separator between them. -/
def pair (separator : String) (v : Vec F) : String :=
  Scalar.text v.x ++ separator ++ Scalar.text v.y

/-- A reference to an element by its name. -/
def reference (id : String) : String := "#" ++ id

/-- The definition of a marker.  Its tip is pulled back by the radius of a node,
so that it touches the rim. -/
def marker (config : Config F) (m : Marker) : List Token :=
  [.start "marker"
    [⟨"id", m.id⟩, ⟨"markerWidth", "8"⟩, ⟨"markerHeight", "8"⟩,
      ⟨"refX", Scalar.text (config.nodeRadius + 8)⟩, ⟨"refY", "4"⟩, ⟨"orient", "auto"⟩,
      ⟨"markerUnits", "userSpaceOnUse"⟩],
    .lone "path" [⟨"d", "M0,0 L0,8 L8,4 z"⟩],
    .finish "marker",
    newline]

/-- The attribute by which an edge shows its marker. -/
def markerEnd (m : Marker) : Attribute := ⟨"marker-end", "url(" ++ reference m.id ++ ")"⟩

/-- The path of an edge.  It runs between the nodes and is shifted as a whole. -/
def edge (e : EdgeShape F) : List Token :=
  [.lone "path"
    ([⟨"id", e.id⟩,
      ⟨"class", "link " ++ e.kind.label⟩,
      ⟨"d", "M" ++ pair "," e.start ++ " L" ++ pair "," e.finish⟩,
      ⟨"transform", "translate(" ++ pair ", " e.offset ++ ")"⟩] ++
      (e.marker?.map markerEnd).toList),
    newline]

/-- The turn of a label: half a turn about its anchor, or none. -/
def turn (l : EdgeLabel F) : String :=
  if l.flipped then
    "rotate(" ++ Scalar.text l.rotation ++ "," ++ pair "," l.anchor ++ ")"
  else "rotate(0)"

/-- The label of an edge, on the middle of its path. -/
def label (l : EdgeLabel F) : List Token :=
  [.start "text"
    [⟨"class", "link-label"⟩, ⟨"text-anchor", "middle"⟩, ⟨"dy", "0.31em"⟩,
      ⟨"transform", turn l⟩],
    .start "textPath" [⟨"href", reference l.pathId⟩, ⟨"startOffset", "50%"⟩],
    .text l.text,
    .finish "textPath",
    .finish "text",
    newline]

/-- The place of a node. -/
def place (n : NodeShape F) : String := "translate(" ++ pair "," n.center ++ ")"

/-- The disc of a node. -/
def disc (config : Config F) (n : NodeShape F) : List Token :=
  [.lone "circle" [⟨"r", Scalar.text config.nodeRadius⟩, ⟨"transform", place n⟩], newline]

/-- The name of a node. -/
def name (n : NodeShape F) : List Token :=
  [.start "text"
    [⟨"class", "node-label"⟩, ⟨"y", ".31em"⟩, ⟨"text-anchor", "middle"⟩,
      ⟨"transform", place n⟩],
    .text n.name,
    .finish "text",
    newline]

/-- Elements in a group of their own. -/
def group (elements : List Token) : List Token := block "g" [] elements

end Svg

namespace Scene

open Svg

/-- The document as a list of tokens. -/
def svgTokens (s : Scene F) (config : Config F) : List Token :=
  block "svg"
    [⟨"xmlns", "http://www.w3.org/2000/svg"⟩,
      ⟨"width", Scalar.text s.viewport.width⟩,
      ⟨"height", Scalar.text s.viewport.height⟩]
    ([.start "style" [], .text style, .finish "style", newline] ++
      block "defs" [] (Marker.all.flatMap (marker config)) ++
      group (s.edges.flatMap edge) ++
      group (s.labels.flatMap label) ++
      group (s.nodes.flatMap (disc config)) ++
      group (s.nodes.flatMap name))

/-- The document as it is written. -/
def svg (s : Scene F) (config : Config F) : String := Markup.render (s.svgTokens config)

end Scene

end ForceDiagram
