/-
ForceDiagram/Proofs/Force/Encounters.lean

Collisions as a list of encounters.

A round is three loops, one inside the other, over nodes that it moves as it goes.  Who meets
whom is settled before anyone moves, by the numbers of the nodes and the tree of the round;
only from where the node with the lower number looks is settled when its turn comes.  So a
round comes to the same as going through a list of `Encounter`s (`foldl_turn`), in which no
pair of nodes stands twice, and all that one encounter can do is to push two nodes apart.

Discs that do not overlap have no encounter that changes anything, in whichever order they
meet, so that rounds leave them as they are.

Main result: `act_by_encounters`.
-/
import ForceDiagram.Proofs.Force.Frame
import ForceDiagram.Proofs.Quadtree.Near

namespace ForceDiagram

variable {F : Type} [Scalar F]

/-- Two nodes that meet, by their numbers, and where the one with the lower number was about to
be when its turn began. -/
structure Encounter (F : Type) where
  lower : Nat
  place : Vec F
  higher : Nat

/-- The pair of nodes that meet. -/
def Encounter.pair (e : Encounter F) : Nat × Nat := (e.lower, e.higher)

namespace Collision

/-! ### Encounters of a round -/

/-- Two nodes meet. -/
def face (c : Collision F) (b : Bodies F) (e : Encounter F) : Bodies F :=
  c.meet e.lower e.place b e.higher

/-- The numbers of the nodes that one with the given place in the tree meets in its turn. -/
def partners (c : Collision F) (tree : Quadtree F) (body : Body F) : List Nat :=
  ((tree.near body.pos c.reach).map (·.index)).filter (body.index < ·)

/-- The encounters of a turn. -/
def encountersOf (c : Collision F) (tree : Quadtree F) (b : Bodies F) (body : Body F) :
    List (Encounter F) :=
  match b.nodes[body.index]? with
  | none => []
  | some node => (c.partners tree body).map fun other => ⟨body.index, node.ahead, other⟩

/-- The encounters of turns one after the other, each from where those before it have left the
nodes. -/
def encounters (c : Collision F) (tree : Quadtree F) :
    List (Body F) → Bodies F → List (Encounter F)
  | [], _ => []
  | body :: bodies, b => c.encountersOf tree b body ++ c.encounters tree bodies (c.turn tree b body)

/-- The encounters of the round that begins with the given nodes. -/
def meetings (c : Collision F) (b : Bodies F) : List (Encounter F) :=
  let places := b.nodes.toList.map Node.ahead
  match Quadtree.ofPoints? places with
  | none => []
  | some tree => c.encounters tree (Quadtree.bodiesOf places) b

/-! ### A round is its encounters -/

theorem meet_of_le (c : Collision F) {index other : Nat} (h : other ≤ index) (place : Vec F)
    (b : Bodies F) : c.meet index place b other = b := if_pos h

theorem turn_eq (c : Collision F) (tree : Quadtree F) (b : Bodies F) (body : Body F) :
    c.turn tree b body = (c.encountersOf tree b body).foldl c.face b := by
  rw [turn, encountersOf]
  rcases b.nodes[body.index]? with - | node
  · rfl
  · show (tree.near body.pos c.reach).foldl _ b = ((c.partners tree body).map _).foldl c.face b
    rw [List.foldl_map, partners]
    generalize tree.near body.pos c.reach = others
    induction others generalizing b with
    | nil => rfl
    | cons other others ih =>
      rw [List.foldl_cons, List.map_cons, List.filter_cons, ih]
      split
      · rfl
      · next hle => rw [c.meet_of_le (by simpa using hle)]

/-- Turns one after the other are their encounters one after the other. -/
theorem foldl_turn (c : Collision F) (tree : Quadtree F) (bodies : List (Body F)) (b : Bodies F) :
    bodies.foldl (c.turn tree) b = (c.encounters tree bodies b).foldl c.face b := by
  induction bodies generalizing b with
  | nil => rfl
  | cons body bodies ih => rw [List.foldl_cons, encounters, List.foldl_append, ← turn_eq, ih]

/-- A round for which there is a tree is held, and comes to its encounters. -/
theorem round?_of_some (c : Collision F) {b : Bodies F} {tree : Quadtree F}
    (htree : Quadtree.ofPoints? (b.nodes.toList.map Node.ahead) = some tree) :
    c.round? b = some ((c.meetings b).foldl c.face b) := by
  rw [round?, meetings, htree]
  exact congrArg some (c.foldl_turn tree _ b)

theorem getD_round? (c : Collision F) (b : Bodies F) :
    (c.round? b).getD b = (c.meetings b).foldl c.face b := by
  rcases htree : Quadtree.ofPoints? (b.nodes.toList.map Node.ahead) with - | tree
  · rw [round?, meetings, htree]
    rfl
  · rw [c.round?_of_some htree, Option.getD_some]

/-- One round more is what the encounters after the other rounds do. -/
theorem repeated_succ (c : Collision F) (rounds : Nat) (b : Bodies F) :
    c.repeated (rounds + 1) b =
      (c.meetings (c.repeated rounds b)).foldl c.face (c.repeated rounds b) := by
  induction rounds generalizing b with
  | zero =>
    rw [← getD_round?, repeated, repeated]
    rcases c.round? b with - | b' <;> rfl
  | succ rounds ih =>
    rcases hround : c.round? b with - | b'
    · -- nothing has happened, and nothing will
      have hstay : ∀ rounds, c.repeated rounds b = b := by
        rintro (- | rounds)
        · rfl
        · rw [repeated, hround]
      rw [hstay, hstay, ← getD_round?, hround, Option.getD_none]
    · have hnext : ∀ rounds, c.repeated (rounds + 1) b = c.repeated rounds b' := by
        intro rounds
        rw [repeated, hround]
      rw [hnext, hnext, ih]

/-! ### Who meets whom -/

/-- Who meets whom is settled by the tree. -/
theorem pairs_encounters (c : Collision F) (tree : Quadtree F) (bodies : List (Body F))
    {b : Bodies F} (h : ∀ body ∈ bodies, body.index < b.nodes.size) :
    (c.encounters tree bodies b).map Encounter.pair =
      bodies.flatMap fun body => (c.partners tree body).map (body.index, ·) := by
  induction bodies generalizing b with
  | nil => rfl
  | cons body bodies ih =>
    obtain ⟨hbody, hbodies⟩ := List.forall_mem_cons.mp h
    have hsize := Bodies.size_eq_of_places (c.places_turn tree b body)
    have hturn : (c.encountersOf tree b body).map Encounter.pair =
        (c.partners tree body).map (body.index, ·) := by
      rw [encountersOf, Array.getElem?_eq_getElem hbody]
      exact List.map_map
    rw [encounters, List.map_append, List.flatMap_cons, hturn, ih (hsize ▸ hbodies)]

theorem pairs_meetings (c : Collision F) {b : Bodies F} {tree : Quadtree F}
    (htree : Quadtree.ofPoints? (b.nodes.toList.map Node.ahead) = some tree) :
    (c.meetings b).map Encounter.pair =
      (Quadtree.bodiesOf (b.nodes.toList.map Node.ahead)).flatMap fun body =>
        (c.partners tree body).map (body.index, ·) := by
  rw [meetings, htree]
  refine c.pairs_encounters tree _ fun body hbody => ?_
  have hpos := Quadtree.mem_bodiesOf_iff.mp hbody
  simpa using (List.getElem?_eq_some_iff.mp hpos).1

theorem meetings_of_none (c : Collision F) {b : Bodies F}
    (htree : Quadtree.ofPoints? (b.nodes.toList.map Node.ahead) = none) : c.meetings b = [] := by
  rw [meetings, htree]

theorem nodup_partners (c : Collision F) {points : List (Vec F)} {tree : Quadtree F}
    (ht : Quadtree.ofPoints? points = some tree) (body : Body F) :
    (c.partners tree body).Nodup :=
  (Quadtree.near_of_points ht body.pos c.reach).1.filter _

/-- Nodes meet later nodes. -/
theorem lt_of_mem_partners (c : Collision F) {points : List (Vec F)} {tree : Quadtree F}
    (ht : Quadtree.ofPoints? points = some tree) {body : Body F} {other : Nat}
    (h : other ∈ c.partners tree body) : body.index < other ∧ other < points.length := by
  obtain ⟨hnear, hlt⟩ := List.mem_filter.mp h
  obtain ⟨found, hfound, rfl⟩ := List.mem_map.mp hnear
  have hpos := (Quadtree.near_of_points ht body.pos c.reach).2.2.1 found hfound
  exact ⟨of_decide_eq_true hlt, (List.getElem?_eq_some_iff.mp hpos).1⟩

/-- No pair stands twice among the encounters of a round. -/
theorem nodup_meetings (c : Collision F) (b : Bodies F) :
    ((c.meetings b).map Encounter.pair).Nodup := by
  rcases htree : Quadtree.ofPoints? (b.nodes.toList.map Node.ahead) with - | tree
  · rw [c.meetings_of_none htree]
    exact List.nodup_nil
  · rw [c.pairs_meetings htree, List.nodup_flatMap]
    refine ⟨fun body _ => ?_, ?_⟩
    · exact (c.nodup_partners htree body).map fun _ _ h => (Prod.mk.inj h).2
    · -- pairs of different turns differ in the node whose turn it is
      have hindex : ((Quadtree.bodiesOf (b.nodes.toList.map Node.ahead)).map (·.index)).Nodup :=
        Quadtree.map_index_bodiesOf (b.nodes.toList.map Node.ahead) ▸ List.nodup_range
      refine (List.pairwise_map.mp hindex).imp fun {body body'} hne pair hpair hpair' => ?_
      obtain ⟨other, _, hother⟩ := List.mem_map.mp hpair
      obtain ⟨other', _, hother'⟩ := List.mem_map.mp hpair'
      exact hne (Prod.mk.inj (hother.trans hother'.symm)).1

theorem lt_of_mem_meetings (c : Collision F) (b : Bodies F) {e : Encounter F}
    (he : e ∈ c.meetings b) : e.lower < e.higher ∧ e.higher < b.nodes.size := by
  rcases htree : Quadtree.ofPoints? (b.nodes.toList.map Node.ahead) with - | tree
  · rw [c.meetings_of_none htree] at he
    exact absurd he List.not_mem_nil
  · have hpair : e.pair ∈ (c.meetings b).map Encounter.pair := List.mem_map_of_mem he
    rw [c.pairs_meetings htree] at hpair
    obtain ⟨body, -, hbody⟩ := List.mem_flatMap.mp hpair
    obtain ⟨other, hother, heq⟩ := List.mem_map.mp hbody
    obtain ⟨hlower, hhigher⟩ := Prod.mk.inj heq
    have hlt := c.lt_of_mem_partners htree hother
    rw [List.length_map, Array.length_toList] at hlt
    rwa [hlower, hhigher] at hlt

/-- Two nodes meet if the search from the place of the one with the lower number finds the
other. -/
theorem mem_pairs_meetings (c : Collision F) {b : Bodies F} {tree : Quadtree F}
    (htree : Quadtree.ofPoints? (b.nodes.toList.map Node.ahead) = some tree) {i j : Nat}
    {node : Node F} (hi : b.nodes[i]? = some node) (hlt : i < j)
    (hnear : j ∈ (tree.near node.ahead c.reach).map (·.index)) :
    (i, j) ∈ (c.meetings b).map Encounter.pair := by
  rw [c.pairs_meetings htree]
  refine List.mem_flatMap.mpr ⟨⟨i, node.ahead⟩, Quadtree.mem_bodiesOf_iff.mpr ?_, ?_⟩
  · rw [List.getElem?_map, Array.getElem?_toList, hi]
    rfl
  · exact List.mem_map.mpr ⟨j, List.mem_filter.mpr ⟨hnear, decide_eq_true hlt⟩, rfl⟩

/-! ### What an encounter does -/

/-- Two nodes that meet are pushed apart by the same vector, or nothing happens. -/
theorem face_eq_or (c : Collision F) (b : Bodies F) (e : Encounter F) :
    c.face b e = b ∨ ∃ change jitter, c.face b e =
      { (b.modify e.lower (·.pushed change)).modify e.higher (·.pulled change) with jitter } := by
  rw [face, meet]
  split
  · exact .inl rfl
  · split
    · exact .inl rfl
    · next node _ =>
      dsimp only
      split
      · exact .inl rfl
      · rcases b.jitter.apart (e.place - node.ahead) (e.place - node.ahead).lengthSq with
          ⟨delta, lengthSq, jitter⟩
        exact .inr ⟨_, jitter, rfl⟩

/-! ### Discs that do not overlap -/

/-- Where nodes are about to be, no two of them are closer than their discs allow. -/
def Apart (c : Collision F) (b : Bodies F) : Prop :=
  b.nodes.toList.Pairwise fun n m => c.reach * c.reach ≤ (n.ahead - m.ahead).lengthSq

/-- A node that stands where it was when its turn began moves none from which it is apart. -/
theorem Apart.meet_eq {c : Collision F} {b : Bodies F} (h : c.Apart b) {index : Nat}
    {node : Node F} (hnode : b.nodes[index]? = some node) (other : Nat) :
    c.meet index node.ahead b other = b := by
  rw [meet]
  split
  · rfl
  · next hlt =>
    split
    · rfl
    · next met hmet =>
      obtain ⟨hindex, rfl⟩ := Array.getElem?_eq_some_iff.mp hnode
      obtain ⟨hother, rfl⟩ := Array.getElem?_eq_some_iff.mp hmet
      have hfar := List.pairwise_iff_getElem.mp h index other (by simpa using hindex)
        (by simpa using hother) (Nat.lt_of_not_le hlt)
      simp only [Array.getElem_toList] at hfar
      exact if_pos hfar

theorem Apart.turn_eq {c : Collision F} {b : Bodies F} (h : c.Apart b) (tree : Quadtree F)
    (body : Body F) : c.turn tree b body = b := by
  rw [turn]
  split
  · rfl
  · next node hnode => exact List.foldl_fixed' (fun other => h.meet_eq hnode other.index) _

/-- Whatever the tree is and whoever takes a turn, nobody is moved. -/
theorem Apart.foldl_turn_eq {c : Collision F} {b : Bodies F} (h : c.Apart b) (tree : Quadtree F)
    (bodies : List (Body F)) : bodies.foldl (c.turn tree) b = b :=
  List.foldl_fixed' (h.turn_eq tree) bodies

theorem Apart.repeated_eq {c : Collision F} {b : Bodies F} (h : c.Apart b) (rounds : Nat) :
    c.repeated rounds b = b := by
  induction rounds with
  | zero => rfl
  | succ rounds ih =>
    rw [repeated, round?]
    rcases Quadtree.ofPoints? (b.nodes.toList.map Node.ahead) with - | tree
    · rfl
    · show c.repeated rounds (List.foldl (c.turn tree) b _) = b
      rw [h.foldl_turn_eq, ih]

/-- **Collisions are encounters that push two nodes apart.**  However many rounds there are, they
change velocities and the generator and nothing else.  They act in rounds, and each round goes
through its encounters one after the other; no pair of nodes stands twice among these, and the
first node of each has the lower number.  What an encounter changes is the velocities of its two
nodes, by the same vector in opposite directions, and the generator.  And if no two discs overlap
at the start, no node and no sample is touched, whatever tree finds who meets whom. -/
theorem act_by_encounters (c : Collision F) (b : Bodies F) :
    (c.act b).places = b.places ∧
    (c.act b = c.repeated c.rounds b ∧ c.repeated 0 b = b ∧
      ∀ rounds, c.repeated (rounds + 1) b =
        (c.meetings (c.repeated rounds b)).foldl c.face (c.repeated rounds b)) ∧
    (∀ b : Bodies F, ((c.meetings b).map Encounter.pair).Nodup ∧
      ∀ e ∈ c.meetings b, e.lower < e.higher ∧ e.higher < b.nodes.size) ∧
    (∀ (b : Bodies F) (e : Encounter F), c.face b e = b ∨ ∃ change jitter, c.face b e =
      { (b.modify e.lower (·.pushed change)).modify e.higher (·.pulled change) with jitter }) ∧
    (c.Apart b → c.act b = b ∧ ∀ (tree : Quadtree F) (bodies : List (Body F)),
      bodies.foldl (c.turn tree) b = b) :=
  ⟨c.places_act b, ⟨rfl, rfl, fun rounds => c.repeated_succ rounds b⟩,
    fun b => ⟨c.nodup_meetings b, fun _ => c.lt_of_mem_meetings b⟩, c.face_eq_or,
    fun h => ⟨h.repeated_eq c.rounds, h.foldl_turn_eq⟩⟩

/-- Two discs that touch, and one further away: the first two meet, and nothing happens. -/
theorem act_by_encounters_apart :
    let c : Collision Float32 := ⟨1, 1, 3⟩
    let b : Bodies Float32 := ⟨#[⟨"a", ⟨0, 0⟩, ⟨0, 0⟩, none⟩, ⟨"b", ⟨1, 0⟩, ⟨1, 0⟩, none⟩,
      ⟨"c", ⟨0, 9⟩, ⟨0, 0⟩, none⟩], .initial⟩
    (c.Apart b ∧ c.act b = b) ∧
      ∃ e ∈ c.meetings b, e.pair = (0, 1) ∧ e.lower < e.higher ∧ e.higher < b.nodes.size := by
  intro c b
  obtain ⟨-, -, hmeetings, -, hstays⟩ := act_by_encounters c b
  have hapart : c.Apart b := by
    rw [Apart]
    decide +kernel
  have hpair : (0, 1) ∈ (c.meetings b).map Encounter.pair := by decide +kernel
  obtain ⟨e, he, hlower⟩ := List.mem_map.mp hpair
  exact ⟨⟨hapart, (hstays hapart).1⟩, e, he, hlower, (hmeetings b).2 e he⟩

end Collision

end ForceDiagram
