/-
ForceDiagram/Proofs/Force/Renaming.lean

Forces do not look at names.

Renaming the nodes and then letting a force act gives what the force alone gives,
renamed.  Every force changes nodes one at a time by functions that keep the name,
and decides what to do by places, velocities and numbers only; so the law holds
for a turn (`renamed_modify` is all a turn needs) and passes on to a list of turns
(`renamed_foldl`).  Springs look at the links too, but only at where these lead,
which `Link.untyped` keeps.
-/
import ForceDiagram.Force.Charge
import ForceDiagram.Force.Center
import ForceDiagram.Force.Collision
import ForceDiagram.Force.Spring
import ForceDiagram.Proofs.Arrays

namespace ForceDiagram

variable {F : Type} [Scalar F]

/-- The node under another name. -/
def Node.renamed (name : String → String) (n : Node F) : Node F := { n with name := name n.name }

section Fields

variable (name : String → String) (n : Node F)

omit [Scalar F] in
@[simp] theorem Node.renamed_pos : (n.renamed name).pos = n.pos := rfl

omit [Scalar F] in
@[simp] theorem Node.renamed_velocity : (n.renamed name).velocity = n.velocity := rfl

omit [Scalar F] in
@[simp] theorem Node.renamed_pin : (n.renamed name).pin = n.pin := rfl

@[simp] theorem Node.renamed_ahead : (n.renamed name).ahead = n.ahead := rfl

end Fields

/-- The link without its type. -/
def Link.untyped (l : Link F) : Link F := { l with kind := .response }

omit [Scalar F] in
@[simp] theorem Link.ends_untyped (l : Link F) : l.untyped.ends = l.ends := rfl

namespace Bodies

/-- The bodies with their nodes renamed. -/
def renamed (name : String → String) (b : Bodies F) : Bodies F :=
  { b with nodes := b.nodes.map (Node.renamed name) }

variable (name : String → String)

omit [Scalar F] in
@[simp] theorem getElem?_nodes_renamed (b : Bodies F) (i : Nat) :
    (b.renamed name).nodes[i]? = b.nodes[i]?.map (Node.renamed name) := Array.getElem?_map

omit [Scalar F] in
@[simp] theorem jitter_renamed (b : Bodies F) : (b.renamed name).jitter = b.jitter := rfl

omit [Scalar F] in
/-- A change of one node that does not ask for its name. -/
theorem renamed_modify (b : Bodies F) (i : Nat) {f : Node F → Node F}
    (hf : ∀ n, (f n).renamed name = f (n.renamed name)) :
    (b.modify i f).renamed name = (b.renamed name).modify i f := by
  have hnodes : (b.nodes.modify i f).map (Node.renamed name) =
      (b.nodes.map (Node.renamed name)).modify i f := by
    apply Array.ext_getElem?
    intro j
    simp only [Array.getElem?_map, Array.getElem?_modify]
    split
    · rw [Option.map_map, Option.map_map]
      exact congrArg (Option.map · _) (funext hf)
    · rfl
  rw [renamed, modify, hnodes]
  rfl

omit [Scalar F] in
/-- What two bodies do to each other changes one of them, then the other, and takes
samples. -/
theorem renamed_modify_modify (b : Bodies F) (jitter : Jitter) (i j : Nat)
    {f g : Node F → Node F} (hf : ∀ n, (f n).renamed name = f (n.renamed name))
    (hg : ∀ n, (g n).renamed name = g (n.renamed name)) :
    ({ (b.modify i f).modify j g with jitter } : Bodies F).renamed name =
      { ((b.renamed name).modify i f).modify j g with jitter } := by
  have hboth : ((b.modify i f).modify j g).renamed name =
      ((b.renamed name).modify i f).modify j g := by
    rw [renamed_modify name _ j hg, renamed_modify name b i hf]
  exact congrArg (fun c : Bodies F => ({ c with jitter } : Bodies F)) hboth

omit [Scalar F] in
/-- A force that goes through a list one by one. -/
theorem renamed_foldl {α : Type} {turn : Bodies F → α → Bodies F}
    (hturn : ∀ b a, (turn b a).renamed name = turn (b.renamed name) a) (b : Bodies F)
    (as : List α) : (as.foldl turn b).renamed name = as.foldl turn (b.renamed name) :=
  (List.foldl_hom (renamed name) fun b a => (hturn b a).symm).symm

omit [Scalar F] in
/-- Nodes and their copies under other names are at the same places. -/
theorem map_nodes_renamed {α : Type} {f : Node F → α} (hf : ∀ n, f (n.renamed name) = f n)
    (b : Bodies F) : (b.renamed name).nodes.toList.map f = b.nodes.toList.map f := by
  rw [← Array.toList_map, ← Array.toList_map]
  exact congrArg Array.toList (map_map_of_eq hf b.nodes)

end Bodies

open Bodies

variable (name : String → String)

/-! ### Links -/

namespace Spring

theorem renamed_act (distance alpha : F) (b : Bodies F) (link : Link F) (spring : Spring F) :
    (act distance alpha b link spring).renamed name =
      act distance alpha (b.renamed name) link spring := by
  unfold act
  split
  · rfl
  · rw [getElem?_nodes_renamed, getElem?_nodes_renamed]
    rcases b.nodes[link.source]? with - | source
    · rfl
    · rcases b.nodes[link.target]? with - | target
      · rfl
      · simp only [Option.map_some, Node.renamed_ahead, jitter_renamed]
        exact renamed_modify_modify name b _ link.target link.source (fun _ => rfl) fun _ => rfl

theorem renamed_actAll (distance alpha : F) (links : Array (Link F))
    (springs : Array (Spring F)) (b : Bodies F) :
    (actAll distance alpha links springs b).renamed name =
      actAll distance alpha links springs (b.renamed name) := by
  rw [actAll, actAll, ← Array.foldl_toList, ← Array.foldl_toList]
  exact renamed_foldl name
    (fun b (pair : Link F × Spring F) => renamed_act name distance alpha b pair.1 pair.2) b _

end Spring

/-! ### Collisions -/

namespace Collision

variable (c : Collision F)

theorem renamed_meet (index : Nat) (place : Vec F) (b : Bodies F) (other : Nat) :
    (c.meet index place b other).renamed name = c.meet index place (b.renamed name) other := by
  unfold meet
  split
  · rfl
  · rw [getElem?_nodes_renamed]
    rcases b.nodes[other]? with - | node
    · rfl
    · simp only [Option.map_some, Node.renamed_ahead, jitter_renamed]
      by_cases hfar : c.reach * c.reach ≤ (place - node.ahead).lengthSq
      · rw [if_pos hfar]
        exact (if_pos hfar).symm
      · rw [if_neg hfar]
        refine Eq.trans ?_ (if_neg hfar).symm
        exact renamed_modify_modify name b _ index other (fun _ => rfl) fun _ => rfl

theorem renamed_turn (tree : Quadtree F) (b : Bodies F) (body : Body F) :
    (c.turn tree b body).renamed name = c.turn tree (b.renamed name) body := by
  unfold turn
  rw [getElem?_nodes_renamed]
  rcases b.nodes[body.index]? with - | node
  · rfl
  · simp only [Option.map_some, Node.renamed_ahead]
    exact renamed_foldl name
      (fun b (other : Body F) => c.renamed_meet name body.index node.ahead b other.index) b _

theorem renamed_round? (b : Bodies F) :
    (c.round? b).map (Bodies.renamed name) = c.round? (b.renamed name) := by
  have hplaces : (b.renamed name).nodes.toList.map Node.ahead = b.nodes.toList.map Node.ahead :=
    map_nodes_renamed name (fun _ => rfl) b
  simp only [round?, hplaces, Option.map_map]
  exact congrArg (Option.map · _)
    (funext fun tree => renamed_foldl name (c.renamed_turn name tree) b _)

theorem renamed_repeated (rounds : Nat) (b : Bodies F) :
    (c.repeated rounds b).renamed name = c.repeated rounds (b.renamed name) := by
  induction rounds generalizing b with
  | zero => rfl
  | succ rounds ih =>
    rw [repeated, repeated, ← c.renamed_round? name b]
    rcases c.round? b with - | after
    · rfl
    · exact ih after

theorem renamed_act (b : Bodies F) : (c.act b).renamed name = c.act (b.renamed name) :=
  c.renamed_repeated name _ b

end Collision

/-! ### Charge -/

namespace Charge

variable (c : Charge F)

theorem renamed_turn (tree : Quadtree F) (b : Bodies F) (body : Body F) :
    (c.turn tree b body).renamed name = c.turn tree (b.renamed name) body := by
  unfold turn
  rw [getElem?_nodes_renamed]
  rcases b.nodes[body.index]? with - | node
  · rfl
  · simp only [Option.map_some, Node.renamed_velocity, jitter_renamed]
    rcases (c.sources tree body).foldl (c.accumulate body.pos) (node.velocity, b.jitter) with
      ⟨velocity, jitter⟩
    have hset : ∀ n : Node F,
        ({ n with velocity } : Node F).renamed name = { n.renamed name with velocity } :=
      fun _ => rfl
    exact renamed_modify name { b with jitter } body.index hset

theorem renamed_act (b : Bodies F) : (c.act b).renamed name = c.act (b.renamed name) := by
  have hplaces : (b.renamed name).nodes.toList.map (·.pos) = b.nodes.toList.map (·.pos) :=
    map_nodes_renamed name (fun _ => rfl) b
  simp only [act, hplaces]
  split
  · rfl
  · exact renamed_foldl name (c.renamed_turn name _) b _

end Charge

/-! ### Centering -/

theorem map_renamed_centered (center : Vec F) (nodes : Array (Node F)) :
    (centered center nodes).map (Node.renamed name) =
      centered center (nodes.map (Node.renamed name)) := by
  have htotal : (nodes.map (Node.renamed name)).foldl (fun sum n => sum + n.pos) Vec.zero =
      nodes.foldl (fun sum n => sum + n.pos) Vec.zero := by
    rw [← Array.foldl_toList, ← Array.foldl_toList, Array.toList_map, List.foldl_map]
    rfl
  have hempty : (nodes.map (Node.renamed name)).isEmpty = nodes.isEmpty := by
    rw [Array.isEmpty, Array.size_map, Array.isEmpty]
  unfold centered
  rw [hempty, htotal, Array.size_map]
  split
  · rfl
  · rw [Array.map_map, Array.map_map]
    rfl

end ForceDiagram
