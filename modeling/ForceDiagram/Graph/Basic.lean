/-
ForceDiagram/Graph/Basic.lean

The graph that is laid out: named nodes that move, and links between them.

Nodes are numbered in the order in which the records first name them, a
record's source before its target, and links refer to nodes by these numbers.
-/
import ForceDiagram.Dataset.Record
import ForceDiagram.Graph.Bow
import ForceDiagram.Graph.Kind
import ForceDiagram.Plane.Vec

namespace ForceDiagram

variable {F : Type} [Scalar F]

structure Node (F : Type) where
  name : String
  pos : Vec F
  velocity : Vec F
  /-- Where the node is held, while it is. -/
  pin : Option (Vec F)

namespace Node

/-- A node at rest at the origin. -/
def named (name : String) : Node F := ⟨name, .zero, .zero, none⟩

/-- Where the node will be if nothing else acts on it. -/
def ahead (n : Node F) : Vec F := n.pos + n.velocity

/-- The node with a vector added to its velocity. -/
def pushed (n : Node F) (change : Vec F) : Node F := { n with velocity := n.velocity + change }

/-- The node with a vector subtracted from its velocity. -/
def pulled (n : Node F) (change : Vec F) : Node F := { n with velocity := n.velocity - change }

end Node

structure Link (F : Type) where
  source : Nat
  target : Nat
  kind : Kind
  bow : Bow
  /-- The sideways shift the link was last drawn with. -/
  offset : Vec F

namespace Link

/-- Whether the link leads back to the node it comes from. -/
def isLoop (l : Link F) : Bool := l.source == l.target

/-- The numbers of the nodes at the two ends. -/
def ends (l : Link F) : Bow.Ends := (l.source, l.target)

end Link

structure Graph (F : Type) where
  nodes : Array (Node F)
  links : Array (Link F)
  /-- Whether the nodes have been given their first positions. -/
  placed : Bool

namespace Graph

def empty : Graph F := ⟨#[], #[], false⟩

instance : Inhabited (Graph F) := ⟨empty⟩

/-- The names that records mention, each once, in the order of first mention. -/
def namesOf (records : List Record) : List String :=
  (records.flatMap fun r => [r.source, r.target]).eraseDups

/-- The numbers of the nodes that a record joins. -/
def endsOf (names : List String) (record : Record) : Bow.Ends :=
  (names.idxOf record.source, names.idxOf record.target)

/-- The graph of a dataset: a node for each name, a link for each record. -/
def ofRecords (records : List Record) : Graph F :=
  let names := namesOf records
  let ends := records.map (endsOf names)
  let link (record : Record) (ends : Bow.Ends) (bow : Bow) : Link F :=
    ⟨ends.1, ends.2, .ofLabel record.kind, bow, .zero⟩
  { nodes := (names.map Node.named).toArray
    links := ((records.zip (ends.zip (Bow.ofEnds ends))).map fun r =>
      link r.1 r.2.1 r.2.2).toArray
    placed := false }

/-- The number of the node with the given name. -/
def indexOf? (g : Graph F) (name : String) : Option Nat :=
  g.nodes.findIdx? fun n => n.name == name

/-- The node with the given name. -/
def node? (g : Graph F) (name : String) : Option (Node F) :=
  (g.indexOf? name).bind fun i => g.nodes[i]?

/-- The position of a node by its number.  Links never lead outside the nodes. -/
def positionOf (g : Graph F) (i : Nat) : Vec F :=
  (g.nodes[i]?.map (·.pos)).getD .zero

/-- The graph with one node changed. -/
def modifyNode (g : Graph F) (i : Nat) (f : Node F → Node F) : Graph F :=
  { g with nodes := g.nodes.modify i f }

/-- The graph with every node changed. -/
def mapNodes (g : Graph F) (f : Node F → Node F) : Graph F :=
  { g with nodes := g.nodes.map f }

end Graph

end ForceDiagram
