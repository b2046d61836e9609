/-
ForceDiagram/Scene/Contents.lean

What a diagram says, apart from where it is drawn: its edges with their types and
markers, the labels with the edges they are written along, and the names of its nodes.

It can be read off a scene and off a document.  In a document an edge is a path with a
name of its own, its type what its class adds to the class of all edges; a label is
what is written along a path; and the name of a node is a text of the class of such
names.
-/
import ForceDiagram.Markup.Reading
import ForceDiagram.Scene.Basic

namespace ForceDiagram

variable {F : Type} [Scalar F]

/-- An edge by its name, its type and the marker it refers to. -/
structure EdgeEntry where
  id : String
  kind : String
  marker : Option String
deriving DecidableEq, Repr

/-- A label by the name of its edge and its text. -/
structure LabelEntry where
  pathId : String
  text : String
deriving DecidableEq, Repr

structure Contents where
  edges : List EdgeEntry
  labels : List LabelEntry
  names : List String
deriving DecidableEq, Repr

/-- How an edge refers to a marker. -/
def Marker.reference (m : Marker) : String := "url(#" ++ m.id ++ ")"

namespace Scene

/-- What a scene says. -/
def contents (s : Scene F) : Contents where
  edges := s.edges.map fun e => ⟨e.id, e.kind.label, e.marker?.map Marker.reference⟩
  labels := s.labels.map fun l => ⟨l.pathId, l.text⟩
  names := s.nodes.map (·.name)

end Scene

/-! ### Without what a dataset says -/

/-- A type that only says whether it is known, and which of the known ones it is. -/
def Kind.masked : Kind → Kind
  | .other _ => .other ""
  | kind => kind

/-- A scene with the types of unknown edges, the texts of the labels and the names of
the nodes left out. -/
def Scene.masked (s : Scene F) : Scene F :=
  { s with
    edges := s.edges.map fun e => { e with kind := e.kind.masked }
    labels := s.labels.map ({ · with text := "" })
    nodes := s.nodes.map ({ · with name := "" }) }

/-! ### Reading it off a document -/

namespace Contents

open Markup (Piece)

/-- What follows a front in a text that has it. -/
def behind? (front text : String) : Option String :=
  if front.toList.isPrefixOf text.toList then
    some (String.ofList (text.toList.drop front.toList.length))
  else none

@[simp] theorem behind?_append (front s : String) : behind? front (front ++ s) = some s := by
  have hfront : front.toList <+: (front ++ s).toList := by
    rw [String.toList_append]
    exact List.prefix_append _ _
  rw [behind?, if_pos (List.isPrefixOf_iff_prefix.mpr hfront), String.toList_append,
    List.drop_left, String.ofList_toList]

def edgeOf? (p : Piece) : Option EdgeEntry :=
  if p.tag.name = "path" then do
    let id ← p.tag.value? "id"
    let kind ← (p.tag.value? "class").bind (behind? "link ")
    return ⟨id, kind, p.tag.value? "marker-end"⟩
  else none

def labelOf? (p : Piece) : Option LabelEntry :=
  if p.tag.name = "textPath" && p.tag.shape = .start then do
    let pathId ← (p.tag.value? "href").bind (behind? "#")
    return ⟨pathId, p.text⟩
  else none

def nameOf? (p : Piece) : Option String :=
  if p.tag.name = "text" && p.tag.value? "class" = some "node-label" then some p.text else none

/-- What the pieces of a document say. -/
def ofPieces (pieces : List Piece) : Contents :=
  ⟨pieces.filterMap edgeOf?, pieces.filterMap labelOf?, pieces.filterMap nameOf?⟩

/-- What a document says. -/
def ofDocument? (document : String) : Option Contents :=
  (Markup.read document.toList).map fun pieces => ofPieces (pieces.map Piece.meaning)

end Contents

end ForceDiagram
