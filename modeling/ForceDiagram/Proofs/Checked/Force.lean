/-
ForceDiagram/Proofs/Checked/Force.lean

The forces with every access checked, and the step that applies them.

A link looks up both its ends and, by its own number, its spring; the springs come from
degrees that are counted in an array with one entry for each node.  Collisions and charge
take the places of all nodes anew, build a tree of them, and look places up by the numbers
the tree gives while the nodes change their velocities.  What makes all this come to its
end is that no force changes the number of nodes (`size_eq_of_places`), so that numbers
stay in range for all turns of a force.

`Simulation.InRange` is what a step needs of a simulation: that the ends of links are
nodes (`Graph.Closed`), and that there is a spring for each link
(`Simulation.stepChecked_eq`).
-/
import ForceDiagram.Proofs.Checked.Quadtree
import ForceDiagram.Proofs.Simulation.Frame

namespace ForceDiagram

variable {F : Type} [Scalar F]

/-! ### Bodies -/

namespace Bodies

/-- A force that goes through all nodes by their numbers comes to its end if each turn
does, whatever the turns before have done to the nodes. -/
theorem foldlM_range {b : Bodies F} {places : Array (Vec F)} (hsize : places.size = b.nodes.size)
    {turn : Bodies F → Nat → Checked (Bodies F)} {plain : Bodies F → Body F → Bodies F}
    (hplain : ∀ b' body, (plain b' body).places = b'.places)
    (hturn : ∀ b' : Bodies F, b'.nodes.size = places.size →
      ∀ body ∈ Quadtree.bodiesOf places.toList, turn b' body.index = .ok (plain b' body)) :
    (List.range b.nodes.size).foldlM turn b =
      .ok ((Quadtree.bodiesOf places.toList).foldl plain b) := by
  have hnumbers : List.range b.nodes.size =
      (Quadtree.bodiesOf places.toList).map (·.index) := by
    rw [Quadtree.map_index_bodiesOf, Array.length_toList, hsize]
  have hloop := foldlM_eq_ok (P := fun b' => b'.nodes.size = places.size)
    (Quadtree.bodiesOf places.toList) hsize.symm fun b' hb' body hbody =>
      ⟨hturn b' hb' body hbody, (size_eq_of_places (hplain b' body)).trans hb'⟩
  rw [hnumbers, List.foldlM_map]
  exact hloop.1

end Bodies

open Bodies

/-! ### Links -/

namespace Spring

/-- One more link at both its ends. -/
def countChecked (degrees : Array Nat) (l : Link F) : Checked (Array Nat) := do
  let degrees ← alter degrees l.source (· + 1)
  alter degrees l.target (· + 1)

/-- The number of links at each node, self-loops left out. -/
def degreesChecked (count : Nat) (links : Array (Link F)) : Checked (Array Nat) :=
  (links.toList.filter fun l => !l.isLoop).foldlM countChecked (Array.replicate count 0)

/-- The springs of links between the given number of nodes. -/
def ofLinksChecked (count : Nat) (links : Array (Link F)) : Checked (Array (Spring F)) := do
  let degrees ← degreesChecked count links
  let springs ← links.toList.mapM fun l => do
    let source : F := Scalar.ofNat (max (← entry degrees l.source) 1)
    let target : F := Scalar.ofNat (max (← entry degrees l.target) 1)
    return ⟨1 / Scalar.lesser source target, source / (source + target)⟩
  return springs.toArray

/-- The link with the given number acts. -/
def actChecked (distance alpha : F) (springs : Array (Spring F)) (b : Bodies F) (link : Link F)
    (k : Nat) : Checked (Bodies F) :=
  if link.isLoop then return b
  else do
    let source ← entry b.nodes link.source
    let target ← entry b.nodes link.target
    let (delta, _, jitter) := b.jitter.apart (target.ahead - source.ahead) 0
    let length := delta.length
    let spring ← entry springs k
    let scale := (length - distance) / length * alpha * spring.strength
    let correction := delta * scale
    let nodes ← alter b.nodes link.target (·.pulled (correction * spring.bias))
    let nodes ← alter nodes link.source (·.pushed (correction * (1 - spring.bias)))
    return ⟨nodes, jitter⟩

/-- All links act, one after the other. -/
def actAllChecked (distance alpha : F) (links : Array (Link F)) (springs : Array (Spring F))
    (b : Bodies F) : Checked (Bodies F) :=
  links.toList.zipIdx.foldlM (fun b p => actChecked distance alpha springs b p.1 p.2) b

variable {count : Nat} {links : Array (Link F)}

/-- The degrees with one more link at both its ends. -/
def counted (degrees : Array Nat) (l : Link F) : Array Nat :=
  (degrees.modify l.source (· + 1)).modify l.target (· + 1)

omit [Scalar F] in
/-- A link that is no loop counts once at a node that it touches. -/
theorem getElem?_counted (degrees : Array Nat) {l : Link F} (hloop : l.isLoop = false) (i : Nat) :
    (counted degrees l)[i]? = degrees[i]?.map (· + if touches i l then 1 else 0) := by
  have hne : l.source ≠ l.target := by simpa [Link.isLoop] using hloop
  have htouches : touches i l = true ↔ l.source = i ∨ l.target = i := by
    simp [touches, hloop]
  rw [counted, Array.getElem?_modify, Array.getElem?_modify]
  by_cases hsource : l.source = i
  · have htarget : l.target ≠ i := fun htarget => hne (hsource.trans htarget.symm)
    rw [if_neg htarget, if_pos hsource, if_pos (htouches.mpr (.inl hsource))]
  · by_cases htarget : l.target = i
    · rw [if_pos htarget, if_neg hsource, if_pos (htouches.mpr (.inr htarget))]
    · rw [if_neg htarget, if_neg hsource, if_neg (by simp [htouches, hsource, htarget])]
      exact Option.map_id_apply.symm

omit [Scalar F] in
theorem getElem?_foldl_counted {ls : List (Link F)} (hloops : ∀ l ∈ ls, l.isLoop = false)
    (degrees : Array Nat) (i : Nat) :
    (ls.foldl counted degrees)[i]? = degrees[i]?.map (· + ls.countP (touches i)) := by
  induction ls generalizing degrees with
  | nil => exact Option.map_id_apply.symm
  | cons l rest ih =>
    rw [List.foldl_cons, ih fun l hl => hloops l (List.mem_cons_of_mem _ hl),
      getElem?_counted degrees (hloops l List.mem_cons_self), Option.map_map, List.countP_cons]
    refine congrArg (Option.map · degrees[i]?) (funext fun degree => ?_)
    simp only [Function.comp_apply]
    omega

omit [Scalar F] in
/-- The degrees are counted for all nodes at once. -/
theorem degreesChecked_eq
    (hends : ∀ l ∈ links, l.source < count ∧ l.target < count) :
    ∃ degrees, degreesChecked count links = .ok degrees ∧
      ∀ i < count, degrees[i]? = some (degree links i) := by
  have hloops : ∀ l ∈ links.toList.filter (fun l => !l.isLoop), l.isLoop = false := by
    intro l hl
    simpa using (List.mem_filter.mp hl).2
  -- loops touch no node
  have hcount : ∀ i, (links.toList.filter fun l => !l.isLoop).countP (touches i) =
      degree links i := by
    intro i
    rw [List.countP_filter, degree, ← Array.countP_toList]
    refine List.countP_congr fun l _ => ?_
    simp only [touches]
    cases l.isLoop <;> simp
  -- counting leaves an entry for every node
  have hturn : ∀ degrees : Array Nat, degrees.size = count →
      ∀ l ∈ links.toList.filter (fun l => !l.isLoop),
        countChecked degrees l = .ok (counted degrees l) ∧ (counted degrees l).size = count := by
    intro degrees hsize l hl
    obtain ⟨hsource, htarget⟩ := hends l (Array.mem_toList_iff.mp (List.mem_of_mem_filter hl))
    rw [← hsize] at hsource htarget
    rw [countChecked, alter_of_lt hsource, Checked.ok_bind, alter_modify_of_lt htarget, counted,
      Array.size_modify, Array.size_modify]
    exact ⟨rfl, hsize⟩
  have hzeros : (Array.replicate count 0).size = count := Array.size_replicate
  have hall := foldlM_eq_ok (P := fun degrees : Array Nat => degrees.size = count)
    (links.toList.filter fun l => !l.isLoop) hzeros hturn
  refine ⟨_, hall.1, fun i hi => ?_⟩
  rw [getElem?_foldl_counted hloops, hcount, Array.getElem?_replicate, if_pos hi,
    Option.map_some, Nat.zero_add]

theorem ofLinksChecked_eq (hends : ∀ l ∈ links, l.source < count ∧ l.target < count) :
    ofLinksChecked count links = .ok (ofLinks links) := by
  obtain ⟨degrees, hdegrees, hdegree⟩ := degreesChecked_eq hends
  have hsprings : links.toList.mapM (fun l => do
      let source : F := Scalar.ofNat (max (← entry degrees l.source) 1)
      let target : F := Scalar.ofNat (max (← entry degrees l.target) 1)
      return (⟨1 / Scalar.lesser source target, source / (source + target)⟩ : Spring F)) =
      .ok (links.toList.map (ofLink links)) := by
    refine mapM_eq_ok fun l hl => ?_
    obtain ⟨hsource, htarget⟩ := hends l (Array.mem_toList_iff.mp hl)
    rw [entry_of_some (hdegree _ hsource), entry_of_some (hdegree _ htarget)]
    rfl
  rw [ofLinksChecked, hdegrees, Checked.ok_bind, hsprings, Checked.ok_bind, ofLinks,
    ← Array.toList_map]
  rfl

theorem actChecked_eq (distance alpha : F) {springs : Array (Spring F)} {b : Bodies F}
    {link : Link F} {k : Nat} {spring : Spring F} (hsource : link.source < b.nodes.size)
    (htarget : link.target < b.nodes.size) (hspring : springs[k]? = some spring) :
    actChecked distance alpha springs b link k = .ok (act distance alpha b link spring) := by
  obtain ⟨source, hs⟩ := exists_entry hsource
  obtain ⟨target, ht⟩ := exists_entry htarget
  unfold actChecked act
  split
  · rfl
  · rw [entry_of_some hs, entry_of_some ht, entry_of_some hspring, hs, ht]
    simp only [Checked.ok_bind]
    rw [alter_of_lt htarget, Checked.ok_bind, alter_modify_of_lt hsource]
    rfl

theorem actAllChecked_eq (distance alpha : F) {springs : Array (Spring F)} {b : Bodies F}
    (hends : ∀ l ∈ links, l.source < b.nodes.size ∧ l.target < b.nodes.size)
    (hsprings : links.size ≤ springs.size) :
    actAllChecked distance alpha links springs b = .ok (actAll distance alpha links springs b) := by
  -- there is a spring for the number of every link
  have hspring : ∀ p ∈ links.toList.zipIdx, springs[p.2]? = some (springs[p.2]?.getD ⟨0, 0⟩) := by
    intro p hp
    have hk := (List.mem_zipIdx' hp).1
    rw [Array.length_toList] at hk
    obtain ⟨spring, hspring⟩ := exists_entry (Nat.lt_of_lt_of_le hk hsprings)
    rw [hspring, Option.getD_some]
  -- so the pairs of links and springs are as many as the links
  have hpairs : (links.zip springs).toList =
      links.toList.zipIdx.map fun p => (p.1, springs[p.2]?.getD ⟨0, 0⟩) := by
    apply List.ext_getElem
    · simp [hsprings]
    · intro k hk hk'
      have hlt : k < springs.size := by simp at hk; omega
      simp [hlt]
  have hturn : ∀ b' : Bodies F, b'.nodes.size = b.nodes.size → ∀ p ∈ links.toList.zipIdx,
      actChecked distance alpha springs b' p.1 p.2 =
        .ok (act distance alpha b' p.1 (springs[p.2]?.getD ⟨0, 0⟩)) ∧
      (act distance alpha b' p.1 (springs[p.2]?.getD ⟨0, 0⟩)).nodes.size = b.nodes.size := by
    intro b' hsize p hp
    have hlink : p.1 ∈ links := Array.mem_toList_iff.mp (List.fst_mem_of_mem_zipIdx hp)
    obtain ⟨hsource, htarget⟩ := hends p.1 hlink
    rw [← hsize] at hsource htarget
    exact ⟨actChecked_eq distance alpha hsource htarget (hspring p hp),
      (size_eq_of_places (places_act ..)).trans hsize⟩
  have hall := foldlM_eq_ok (P := fun b' : Bodies F => b'.nodes.size = b.nodes.size)
    links.toList.zipIdx rfl hturn
  rw [actAllChecked, hall.1, actAll, ← Array.foldl_toList, hpairs, List.foldl_map]

end Spring

/-! ### Collisions -/

namespace Collision

/-- Node `index`, about to be at `place`, meets node `other`. -/
def meetChecked (c : Collision F) (index : Nat) (place : Vec F) (b : Bodies F) (other : Nat) :
    Checked (Bodies F) :=
  if other ≤ index then return b
  else do
    let node ← entry b.nodes other
    let delta := place - node.ahead
    let lengthSq := delta.lengthSq
    if c.reach * c.reach ≤ lengthSq then return b
    else
      let (delta, lengthSq, jitter) := b.jitter.apart delta lengthSq
      let length := Scalar.sqrt lengthSq
      let push := delta * ((c.reach - length) / length * c.strength)
      let nodes ← alter b.nodes index (·.pushed (push * (0.5 : F)))
      let nodes ← alter nodes other (·.pulled (push * (0.5 : F)))
      return ⟨nodes, jitter⟩

/-- The node with a number meets the nodes near the place it was about to be at. -/
def turnChecked (c : Collision F) (tree : Quadtree F) (places : Array (Vec F)) (b : Bodies F)
    (index : Nat) : Checked (Bodies F) := do
  let node ← entry b.nodes index
  let place ← entry places index
  let near ← tree.nearChecked place c.reach
  near.foldlM (fun b other => c.meetChecked index node.ahead b other.index) b

/-- Every node takes its turn, unless there is no tree of the places all are about to be
at. -/
def roundChecked (c : Collision F) (b : Bodies F) : Checked (Option (Bodies F)) := do
  let places := b.nodes.map Node.ahead
  match ← Quadtree.ofPointsChecked places with
  | none => return none
  | some tree => return some (← (List.range b.nodes.size).foldlM (c.turnChecked tree places) b)

/-- Rounds one after the other, up to the first that cannot be held. -/
def repeatedChecked (c : Collision F) : Nat → Bodies F → Checked (Bodies F)
  | 0, b => return b
  | rounds + 1, b => do
    match ← c.roundChecked b with
    | none => return b
    | some b => c.repeatedChecked rounds b

def actChecked (c : Collision F) (b : Bodies F) : Checked (Bodies F) :=
  c.repeatedChecked c.rounds b

variable (c : Collision F)

theorem meetChecked_eq {index other : Nat} (place : Vec F) {b : Bodies F}
    (hindex : index < b.nodes.size) (hother : other < b.nodes.size) :
    c.meetChecked index place b other = .ok (c.meet index place b other) := by
  obtain ⟨node, hnode⟩ := exists_entry hother
  unfold meetChecked meet
  split
  · rfl
  · rw [entry_of_some hnode, hnode]
    simp only [Checked.ok_bind]
    split
    · rfl
    · rw [alter_of_lt hindex, Checked.ok_bind, alter_modify_of_lt hother]
      rfl

theorem turnChecked_eq {places : Array (Vec F)} {tree : Quadtree F}
    (htree : Quadtree.ofPoints? places.toList = some tree) {b : Bodies F}
    (hsize : b.nodes.size = places.size) {body : Body F}
    (hbody : body ∈ Quadtree.bodiesOf places.toList) :
    c.turnChecked tree places b body.index = .ok (c.turn tree b body) := by
  have hlocated := Quadtree.located_bodiesOf places
  have hrange : ∀ other ∈ Quadtree.bodiesOf places.toList, other.index < b.nodes.size := by
    rw [hsize]
    exact hlocated.lt_size
  obtain ⟨node, hnode⟩ := exists_entry (hrange body hbody)
  rw [turnChecked, entry_of_some hnode, Checked.ok_bind,
    entry_of_some (hlocated body hbody), Checked.ok_bind, Quadtree.nearChecked_eq htree,
    Checked.ok_bind, turn, hnode]
  -- the nodes near a place are nodes still, after any number of meetings
  have hmeet : ∀ b' : Bodies F, b'.nodes.size = b.nodes.size →
      ∀ other ∈ tree.near body.pos c.reach,
        c.meetChecked body.index node.ahead b' other.index =
          .ok (c.meet body.index node.ahead b' other.index) ∧
        (c.meet body.index node.ahead b' other.index).nodes.size = b.nodes.size := by
    intro b' hb' other hother
    have hindex := hrange body hbody
    have hother := hrange other (Quadtree.mem_bodiesOf_of_near htree hother)
    rw [← hb'] at hindex hother
    exact ⟨c.meetChecked_eq node.ahead hindex hother,
      (size_eq_of_places (c.places_meet ..)).trans hb'⟩
  have hall := foldlM_eq_ok (P := fun b' : Bodies F => b'.nodes.size = b.nodes.size)
    (tree.near body.pos c.reach) rfl hmeet
  exact hall.1

theorem roundChecked_eq (b : Bodies F) : c.roundChecked b = .ok (c.round? b) := by
  have hsize : (b.nodes.map Node.ahead).size = b.nodes.size := Array.size_map
  rw [roundChecked, Quadtree.ofPointsChecked_eq, Checked.ok_bind, round?, ← Array.toList_map]
  rcases htree : Quadtree.ofPoints? (b.nodes.map Node.ahead).toList with - | tree
  · rfl
  · simp only
    rw [foldlM_range hsize (c.places_turn tree) fun b' hb' body hbody =>
      c.turnChecked_eq htree hb' hbody]
    rfl

theorem actChecked_eq (b : Bodies F) : c.actChecked b = .ok (c.act b) := by
  have hrepeated : ∀ rounds, c.repeatedChecked rounds b = .ok (c.repeated rounds b) := by
    intro rounds
    induction rounds generalizing b with
    | zero => rfl
    | succ rounds ih =>
      rw [repeatedChecked, roundChecked_eq, Checked.ok_bind, repeated]
      rcases c.round? b with - | b'
      · rfl
      · exact ih b'
  exact hrepeated c.rounds

end Collision

/-! ### Charge -/

namespace Charge

/-- What acts on a node out of one square of a walk. -/
def sourcesOfChecked (c : Charge F) (places : Array (Vec F)) (node : Body F) (v : Visit F) :
    Checked (List (Source F)) :=
  if isVoid v.cell then return []
  else if c.isGroup node.pos v.cell then return [.group v.cell]
  else (v.bodies.filter fun b => b.index ≠ node.index).mapM fun b =>
    return .body (← Quadtree.bodyAt places b.index)

/-- The node with a number takes its turn. -/
def turnChecked (c : Charge F) (tree : Quadtree F) (places : Array (Vec F)) (b : Bodies F)
    (index : Nat) : Checked (Bodies F) := do
  let body ← Quadtree.bodyAt places index
  let node ← entry b.nodes index
  let visits ← tree.walkChecked (c.stops body.pos)
  let sources ← visits.mapM (c.sourcesOfChecked places body)
  let (velocity, jitter) :=
    sources.flatten.foldl (c.accumulate body.pos) (node.velocity, b.jitter)
  return ⟨← alter b.nodes index ({ · with velocity }), jitter⟩

/-- Every node takes its turn, unless there is no tree of their places. -/
def actChecked (c : Charge F) (b : Bodies F) : Checked (Bodies F) := do
  let places := b.nodes.map (·.pos)
  match ← Quadtree.ofPointsChecked places with
  | none => return b
  | some tree => (List.range b.nodes.size).foldlM (c.turnChecked tree places) b

variable (c : Charge F)

theorem sourcesOfChecked_eq {places : Array (Vec F)} (node : Body F) {v : Visit F}
    (h : Quadtree.Located places v.bodies) :
    c.sourcesOfChecked places node v = .ok (c.sourcesOf node v) := by
  unfold sourcesOfChecked sourcesOf
  split
  · rfl
  · split
    · rfl
    · refine mapM_eq_ok fun b hb => ?_
      rw [Quadtree.bodyAt_of_located (h b (List.mem_of_mem_filter hb))]
      rfl

theorem turnChecked_eq {places : Array (Vec F)} {tree : Quadtree F}
    (htree : Quadtree.ofPoints? places.toList = some tree) {b : Bodies F}
    (hsize : b.nodes.size = places.size) {body : Body F}
    (hbody : body ∈ Quadtree.bodiesOf places.toList) :
    c.turnChecked tree places b body.index = .ok (c.turn tree b body) := by
  have hlocated := Quadtree.located_bodiesOf places
  have hindex : body.index < b.nodes.size := by
    rw [hsize]
    exact hlocated.lt_size body hbody
  obtain ⟨node, hnode⟩ := exists_entry hindex
  -- a walk gives back numbers from the array that the tree was built of
  have hsources : (tree.walk (c.stops body.pos)).mapM (c.sourcesOfChecked places body) =
      .ok ((tree.walk (c.stops body.pos)).map (c.sourcesOf body)) := by
    refine mapM_eq_ok fun v hv => c.sourcesOfChecked_eq body ?_
    exact hlocated.of_subset fun b hb => Quadtree.mem_bodiesOf_of_walk htree hv hb
  rw [turnChecked, Quadtree.bodyAt_of_located (hlocated body hbody), Checked.ok_bind,
    entry_of_some hnode, Checked.ok_bind, Quadtree.walkChecked_eq htree, Checked.ok_bind,
    hsources, Checked.ok_bind, turn, hnode, ← List.flatMap_def]
  simp only [alter_of_lt hindex]
  rfl

theorem actChecked_eq (b : Bodies F) : c.actChecked b = .ok (c.act b) := by
  have hsize : (b.nodes.map (·.pos)).size = b.nodes.size := Array.size_map
  rw [actChecked, Quadtree.ofPointsChecked_eq, Checked.ok_bind, act, ← Array.toList_map]
  rcases htree : Quadtree.ofPoints? (b.nodes.map (·.pos)).toList with - | tree
  · simp only [htree]
    rfl
  · simp only [htree]
    exact foldlM_range hsize (c.places_turn tree) fun b' hb' body hbody =>
      c.turnChecked_eq htree hb' hbody

end Charge

/-! ### Steps -/

namespace Simulation

/-- One step, whether the simulation runs or not. -/
def stepChecked (s : Simulation F) : Checked (Simulation F) := do
  let alpha := s.cooled
  let linked ← Spring.actAllChecked s.config.linkDistance alpha s.graph.links s.springs
    ⟨s.graph.nodes, s.jitter⟩
  let collided ← (collision s.config).actChecked linked
  let bodies ← (charge s.config alpha).actChecked collided
  let nodes := centered s.viewport.center bodies.nodes
  let retain := 1 - s.config.velocityDecay
  return { s with
    alpha
    jitter := bodies.jitter
    graph := { s.graph with nodes := nodes.map (moved retain) } }

/-- The ends of links are nodes, and there is a spring for each link. -/
structure InRange (s : Simulation F) : Prop where
  closed : s.graph.Closed
  springs : s.graph.links.size ≤ s.springs.size

variable {s : Simulation F}

theorem stepChecked_eq (h : s.InRange) : s.stepChecked = .ok s.step := by
  have hlinked := Spring.actAllChecked_eq s.config.linkDistance s.cooled
    (b := ⟨s.graph.nodes, s.jitter⟩) h.closed h.springs
  rw [stepChecked, hlinked, Checked.ok_bind, Collision.actChecked_eq, Checked.ok_bind,
    Charge.actChecked_eq]
  rfl

end Simulation

end ForceDiagram
