/-
ForceDiagram/Proofs/Force/Frame.lean

What forces leave alone.

Links, collisions and charge push nodes and draw samples from the generator;
they change nothing else.  "Nothing else" is said in one equation for each
force: the nodes brought to rest (`Bodies.places`) are the same before and
after.  Names, positions and pins of all nodes follow from it, and so does
their number.

Links are looked at for where they lead, and for nothing else.
-/
import ForceDiagram.Force.Charge
import ForceDiagram.Force.Collision
import ForceDiagram.Force.Spring
import ForceDiagram.Proofs.Arrays

namespace ForceDiagram

variable {F : Type} [Scalar F]

namespace Node

/-- The node brought to rest. -/
def atRest (n : Node F) : Node F := { n with velocity := .zero }

@[simp] theorem atRest_pushed (n : Node F) (c : Vec F) : (n.pushed c).atRest = n.atRest := rfl

@[simp] theorem atRest_pulled (n : Node F) (c : Vec F) : (n.pulled c).atRest = n.atRest := rfl

end Node

namespace Bodies

/-- The nodes brought to rest: what forces leave alone. -/
def places (b : Bodies F) : Array (Node F) := b.nodes.map Node.atRest

theorem places_modify (b : Bodies F) (i : Nat) {f : Node F → Node F}
    (hf : ∀ n, (f n).atRest = n.atRest) : (b.modify i f).places = b.places :=
  map_modify_of_eq hf b.nodes i

/-- Forces do not change the number of nodes. -/
theorem size_eq_of_places {b b' : Bodies F} (h : b'.places = b.places) :
    b'.nodes.size = b.nodes.size := by
  have hsize := congrArg Array.size h
  rwa [places, places, Array.size_map, Array.size_map] at hsize

/-- A force that goes through a list one by one leaves alone what each turn does. -/
theorem places_foldl {α : Type} {turn : Bodies F → α → Bodies F}
    (hturn : ∀ b a, (turn b a).places = b.places) (b : Bodies F) (as : List α) :
    (as.foldl turn b).places = b.places := by
  induction as generalizing b with
  | nil => rfl
  | cons a as ih => rw [List.foldl_cons, ih, hturn]

end Bodies

open Bodies

/-! ### Links -/

theorem Spring.places_act (distance alpha : F) (b : Bodies F) (link : Link F)
    (spring : Spring F) : (act distance alpha b link spring).places = b.places := by
  unfold act
  split
  · rfl
  · split
    · next source target _ _ =>
      rcases b.jitter.apart (target.ahead - source.ahead) 0 with ⟨delta, -, jitter⟩
      exact (places_modify _ link.source fun n => n.atRest_pushed _).trans
        (places_modify b link.target fun n => n.atRest_pulled _)
    · rfl

theorem Spring.places_actAll (distance alpha : F) (links : Array (Link F))
    (springs : Array (Spring F)) (b : Bodies F) :
    (actAll distance alpha links springs b).places = b.places := by
  rw [actAll, ← Array.foldl_toList]
  exact places_foldl (fun b (pair : Link F × Spring F) => places_act distance alpha b pair.1 pair.2)
    b _

/-- A link by itself does what any other one between the same nodes does. -/
theorem Spring.act_of_ends {link link' : Link F} (h : link'.ends = link.ends)
    (distance alpha : F) (b : Bodies F) (spring : Spring F) :
    act distance alpha b link' spring = act distance alpha b link spring := by
  obtain ⟨hsource, htarget⟩ := Prod.mk.inj h
  rw [act, act, Link.isLoop, Link.isLoop, hsource, htarget]

/-- What links do depends on where they lead. -/
theorem Spring.actAll_map {f : Link F → Link F} (hf : ∀ l, (f l).ends = l.ends)
    (distance alpha : F) (links : Array (Link F)) (springs : Array (Spring F)) (b : Bodies F) :
    actAll distance alpha (links.map f) springs b = actAll distance alpha links springs b := by
  rw [actAll, actAll, ← Array.foldl_toList, ← Array.foldl_toList, Array.toList_zip,
    Array.toList_zip, Array.toList_map, List.zip_map_left, List.foldl_map]
  refine congrArg (fun turn => (links.toList.zip springs.toList).foldl turn b) ?_
  funext b pair
  exact act_of_ends (hf pair.1) distance alpha b pair.2

/-- The springs of links depend on where these lead. -/
theorem Spring.ofLinks_map {f : Link F → Link F} (hf : ∀ l, (f l).ends = l.ends)
    (links : Array (Link F)) : ofLinks (links.map f) = ofLinks links := by
  have htouches : ∀ node l, touches node (f l) = touches node l := by
    intro node l
    obtain ⟨hsource, htarget⟩ := Prod.mk.inj (hf l)
    rw [touches, touches, Link.isLoop, Link.isLoop, hsource, htarget]
  have hdegree : ∀ node, degree (links.map f) node = degree links node := by
    intro node
    rw [degree, Array.countP_map]
    exact congrArg (fun p => links.countP p) (funext (htouches node))
  rw [ofLinks, Array.map_map]
  refine Array.map_congr_left fun l _ => ?_
  obtain ⟨hsource, htarget⟩ := Prod.mk.inj (hf l)
  simp only [Function.comp_apply, ofLink, hdegree, hsource, htarget]

/-! ### Collisions -/

theorem Collision.places_meet (c : Collision F) (index : Nat) (place : Vec F) (b : Bodies F)
    (other : Nat) : (c.meet index place b other).places = b.places := by
  unfold meet
  split
  · rfl
  · split
    · rfl
    · next node _ =>
      dsimp only
      split
      · rfl
      · rcases b.jitter.apart (place - node.ahead) (place - node.ahead).lengthSq with
          ⟨delta, lengthSq, jitter⟩
        exact (places_modify _ other fun n => n.atRest_pulled _).trans
          (places_modify b index fun n => n.atRest_pushed _)

theorem Collision.places_turn (c : Collision F) (tree : Quadtree F) (b : Bodies F)
    (body : Body F) : (c.turn tree b body).places = b.places := by
  unfold turn
  split
  · rfl
  · exact places_foldl (fun b other => c.places_meet _ _ b _) b _

theorem Collision.places_round? (c : Collision F) {b b' : Bodies F} (h : c.round? b = some b') :
    b'.places = b.places := by
  obtain ⟨tree, -, rfl⟩ := Option.map_eq_some_iff.mp h
  exact places_foldl (c.places_turn tree) b _

theorem Collision.places_repeated (c : Collision F) (rounds : Nat) (b : Bodies F) :
    (c.repeated rounds b).places = b.places := by
  induction rounds generalizing b with
  | zero => rfl
  | succ rounds ih =>
    rw [repeated]
    split
    · rfl
    · next b' hb' => rw [ih, c.places_round? hb']

theorem Collision.places_act (c : Collision F) (b : Bodies F) :
    (c.act b).places = b.places := c.places_repeated _ b

/-! ### Charge -/

theorem Charge.places_turn (c : Charge F) (tree : Quadtree F) (b : Bodies F) (body : Body F) :
    (c.turn tree b body).places = b.places := by
  unfold turn
  split
  · rfl
  · next node _ =>
    rcases (c.sources tree body).foldl (c.accumulate body.pos) (node.velocity, b.jitter) with
      ⟨velocity, jitter⟩
    show (b.modify body.index ({ · with velocity })).places = b.places
    exact places_modify b body.index fun _ => rfl

theorem Charge.places_act (c : Charge F) (b : Bodies F) : (c.act b).places = b.places := by
  unfold act
  dsimp only
  split
  · rfl
  · exact places_foldl (c.places_turn _) b _

end ForceDiagram
