/-
ForceDiagram/Proofs/Checked/Quadtree.lean

The quadtree with every access checked.

Points are given by their numbers, and their places looked up in the array they were taken
from: when the points of a square are added up and compared with the first of them, when
they are sorted into the four lists of its quarters, and when the slot of the square is
looked up to be told what it holds or where its quarters went.  A walk looks up every slot
on its stack, the root first.

None of these accesses fails: only squares with points are put into slots, with numbers
that the array has (`splitChecked_eq`), and slots refer to slots that are there
(`followChecked_eq`).
-/
import ForceDiagram.Proofs.Checked.Entries
import ForceDiagram.Proofs.Quadtree.Pruned

namespace ForceDiagram

variable {F : Type} [Scalar F]

/-- The number of a quarter: its second bit says whether it is a lower one, its first bit
whether it is on the right. -/
def Quarter.number : Quarter → Nat
  | .upperLeft => 0
  | .upperRight => 1
  | .lowerLeft => 2
  | .lowerRight => 3

namespace Quadtree

/-! ### Division -/

/-- The point with a number. -/
def bodyAt (places : Array (Vec F)) (i : Nat) : Checked (Body F) :=
  return ⟨i, ← entry places i⟩

/-- The points with the given numbers, and whether they stay together: they do if there is
one, or if all are at the place of the first. -/
def gatheredChecked (places : Array (Vec F)) (numbers : List Nat) :
    Checked (List (Body F) × Bool) := do
  let bodies ← numbers.mapM (bodyAt places)
  let first ← entry numbers.toArray 0
  let place ← entry places first
  return (bodies, numbers.length = 1 || bodies.all fun b => b.pos == place)

/-- Four lists, one for each quarter. -/
def sorted (part : Quarter → List Nat) : Array (List Nat) := (Quarter.all.map part).toArray

/-- Sorts points into quarters. -/
def sortChecked (places : Array (Vec F)) (square : Square F) (numbers : List Nat) :
    Checked (Array (List Nat)) :=
  numbers.foldlM (fun lists i => do
    let place ← entry places i
    alter lists (square.quarterOf place).number (· ++ [i])) (sorted fun _ => [])

/-- Puts a square that holds its points behind the other slots. -/
def holdChecked (square : Square F) (bodies : List (Body F)) (slots : Array (Slot F)) :
    Checked (Array (Slot F) × Nat) :=
  return (← alter (slots.push (.bare square bodies)) slots.size ({ · with bodies }), slots.size)

/-- Puts one quarter behind the other slots, unless its list is empty, and tells the square in
the slot `parent`. -/
def placeChecked (put : Quarter → List Nat → Array (Slot F) → Checked (Array (Slot F) × Nat))
    (lists : Array (List Nat)) (parent : Nat) (slots : Array (Slot F)) (q : Quarter) :
    Checked (Array (Slot F)) := do
  let part ← entry lists q.number
  if part.isEmpty then return slots
  else
    let (slots, child) ← put q part slots
    alter slots parent (·.withChild q child)

/-- Puts a square and all that is inside it behind the other slots. -/
def splitChecked (places : Array (Vec F)) : (depth : Nat) → Square F → (numbers : List Nat) →
    Array (Slot F) → Checked (Array (Slot F) × Nat)
  | 0, square, numbers, slots => do
    let (bodies, _) ← gatheredChecked places numbers
    holdChecked square bodies slots
  | depth + 1, square, numbers, slots => do
    let (bodies, together) ← gatheredChecked places numbers
    if together then holdChecked square bodies slots
    else
      let lists ← sortChecked places square numbers
      let put (q : Quarter) (part : List Nat) := splitChecked places depth (square.quarter q) part
      let divided ← Quarter.all.foldlM (placeChecked put lists slots.size)
        (slots.push (.bare square bodies))
      return (divided, slots.size)

/-- The points lie where the array says. -/
def Located (places : Array (Vec F)) (bodies : List (Body F)) : Prop :=
  ∀ b ∈ bodies, places[b.index]? = some b.pos

variable {places : Array (Vec F)} {numbers : List Nat} {bodies : List (Body F)}

omit [Scalar F] in
theorem Located.of_subset (h : Located places bodies) {some : List (Body F)}
    (hsub : ∀ b ∈ some, b ∈ bodies) : Located places some :=
  fun b hb => h b (hsub b hb)

omit [Scalar F] in
theorem Located.lt_size (h : Located places bodies) : ∀ b ∈ bodies, b.index < places.size :=
  fun b hb => (Array.getElem?_eq_some_iff.mp (h b hb)).1

omit [Scalar F] in
theorem bodyAt_of_located {b : Body F} (h : places[b.index]? = some b.pos) :
    bodyAt places b.index = .ok b := by
  rw [bodyAt, entry_of_some h]
  rfl

omit [Scalar F] in
/-- Looking points up by their numbers gives the points. -/
theorem mapM_bodyAt (h : Located places bodies) :
    (bodies.map (·.index)).mapM (bodyAt places) = .ok bodies := by
  induction bodies with
  | nil => rfl
  | cons b rest ih =>
    rw [List.map_cons, List.mapM_cons, bodyAt_of_located (h b List.mem_cons_self),
      ih fun b hb => h b (List.mem_cons_of_mem _ hb)]
    rfl

omit [Scalar F] in
/-- Points that have been looked up have the given numbers, and lie where they were
found. -/
theorem located_of_mapM (h : numbers.mapM (bodyAt places) = .ok bodies) :
    bodies.map (·.index) = numbers ∧ Located places bodies := by
  induction numbers generalizing bodies with
  | nil =>
    obtain rfl := Except.ok.inj h
    exact ⟨rfl, fun b hb => absurd hb List.not_mem_nil⟩
  | cons i rest ih =>
    rw [List.mapM_cons] at h
    obtain ⟨b, hb, h⟩ := Checked.bind_eq_ok h
    obtain ⟨bodies', hbodies, h⟩ := Checked.bind_eq_ok h
    obtain rfl := Except.ok.inj h
    obtain ⟨place, hplace, hb⟩ := Checked.bind_eq_ok hb
    obtain rfl := Except.ok.inj hb
    obtain ⟨rfl, hlocated⟩ := ih hbodies
    refine ⟨rfl, fun b hb => ?_⟩
    rcases List.mem_cons.mp hb with rfl | hb
    · exact entry_eq_ok_iff.mp hplace
    · exact hlocated b hb

theorem gatheredChecked_eq (h : bodies ≠ []) (hlocated : Located places bodies) :
    gatheredChecked places (bodies.map (·.index)) = .ok (bodies, together bodies) := by
  obtain ⟨first, rest, rfl⟩ := List.exists_cons_of_ne_nil h
  have hfirst : entry ((first :: rest).map (·.index)).toArray 0 = .ok first.index := rfl
  rw [gatheredChecked, mapM_bodyAt hlocated, hfirst, Checked.ok_bind, Checked.ok_bind,
    entry_of_some (hlocated first List.mem_cons_self), List.length_map]
  rfl

/-- Points can be gathered only if there are some, with numbers in range. -/
theorem of_gatheredChecked {gathered : List (Body F) × Bool}
    (h : gatheredChecked places numbers = .ok gathered) :
    gathered.1 ≠ [] ∧ gathered.1.map (·.index) = numbers ∧ Located places gathered.1 := by
  obtain ⟨bodies, hbodies, h⟩ := Checked.bind_eq_ok h
  obtain ⟨first, hfirst, h⟩ := Checked.bind_eq_ok h
  obtain ⟨place, -, h⟩ := Checked.bind_eq_ok h
  obtain rfl := Except.ok.inj h
  obtain ⟨rfl, hlocated⟩ := located_of_mapM hbodies
  refine ⟨?_, rfl, hlocated⟩
  rintro rfl
  cases hfirst

theorem entry_sorted (part : Quarter → List Nat) (q : Quarter) :
    entry (sorted part) q.number = .ok (part q) := by
  cases q <;> rfl

theorem alter_sorted (part : Quarter → List Nat) (q : Quarter) (i : Nat) :
    alter (sorted part) q.number (· ++ [i]) =
      .ok (sorted fun p => part p ++ if p = q then [i] else []) := by
  cases q <;> simp [alter, entry, sorted, Quarter.all, Quarter.number, Array.modify,
    Array.modifyM]

theorem sortChecked_eq (square : Square F) (h : Located places bodies) :
    sortChecked places square (bodies.map (·.index)) =
      .ok (sorted fun q => (inQuarter square q bodies).map (·.index)) := by
  have hfrom : ∀ part : Quarter → List Nat,
      (bodies.map (·.index)).foldlM (fun lists i => do
        let place ← entry places i
        alter lists (square.quarterOf place).number (· ++ [i])) (sorted part) =
      .ok (sorted fun q => part q ++ (inQuarter square q bodies).map (·.index)) := by
    induction bodies with
    | nil =>
      intro part
      simp only [inQuarter, List.filter_nil, List.map_nil, List.append_nil]
      rfl
    | cons b rest ih =>
      intro part
      rw [List.map_cons, List.foldlM_cons, entry_of_some (h b List.mem_cons_self),
        Checked.ok_bind, alter_sorted, Checked.ok_bind,
        ih fun b hb => h b (List.mem_cons_of_mem _ hb)]
      -- the point has come to the list of its own quarter
      refine congrArg (fun part => Except.ok (sorted part)) (funext fun q => ?_)
      rw [List.append_assoc, inQuarter, inQuarter, List.filter_cons]
      by_cases hq : square.quarterOf b.pos = q
      · rw [if_pos hq.symm, if_pos (decide_eq_true hq)]
        rfl
      · rw [if_neg (Ne.symm hq), if_neg (by simpa using hq)]
        rfl
  exact hfrom fun _ => []

theorem holdChecked_eq (square : Square F) (bodies : List (Body F)) (slots : Array (Slot F)) :
    holdChecked square bodies slots = .ok (slots.push (.leaf square bodies), slots.size) := by
  have hlast : slots.size < (slots.push (.bare square bodies)).size := by
    rw [Array.size_push]
    exact Nat.lt_succ_self _
  have hheld : (slots.push (.bare square bodies)).modify slots.size ({ · with bodies }) =
      slots.push (.leaf square bodies) := by
    apply Array.ext_getElem?
    intro i
    rw [Array.getElem?_modify, Array.getElem?_push, Array.getElem?_push]
    by_cases hi : i = slots.size
    · rw [if_pos hi.symm, if_pos hi, if_pos hi]
      rfl
    · rw [if_neg (Ne.symm hi), if_neg hi, if_neg hi]
  rw [holdChecked, alter_of_lt hlast, hheld]
  rfl

omit [Scalar F] in
/-- A quarter is put in its place if putting its points comes to its end, and then there
is still a slot for the square. -/
theorem placeChecked_eq
    {put : Quarter → List Nat → Array (Slot F) → Checked (Array (Slot F) × Nat)}
    {plain : Quarter → Array (Slot F) → Array (Slot F) × Nat} {part : Quarter → List (Body F)}
    {parent : Nat} {slots : Array (Slot F)} {q : Quarter} (hparent : parent < slots.size)
    (hput : part q ≠ [] → put q ((part q).map (·.index)) slots = .ok (plain q slots) ∧
      slots.size ≤ (plain q slots).1.size) :
    placeChecked put (sorted fun q => (part q).map (·.index)) parent slots q =
      .ok (place plain part parent slots q) ∧
        parent < (place plain part parent slots q).size := by
  rw [placeChecked, entry_sorted, Checked.ok_bind, List.isEmpty_map]
  rcases hpoints : (part q).isEmpty with - | -
  · obtain ⟨hplain, hsize⟩ := hput (by simpa using hpoints)
    have hstill := Nat.lt_of_lt_of_le hparent hsize
    rw [if_neg Bool.false_ne_true, hplain, Checked.ok_bind, place_of_points hpoints,
      Array.size_modify]
    exact ⟨alter_of_lt hstill _, hstill⟩
  · rw [if_pos rfl, place_of_isEmpty hpoints]
    exact ⟨rfl, hparent⟩

/-- A division of some points, all of which lie where the array says, comes to its end. -/
theorem splitChecked_eq (depth : Nat) (square : Square F) (h : bodies ≠ [])
    (hlocated : Located places bodies) (slots : Array (Slot F)) :
    splitChecked places depth square (bodies.map (·.index)) slots =
      .ok (split depth square bodies slots) := by
  induction depth generalizing square bodies slots with
  | zero =>
    rw [splitChecked, gatheredChecked_eq h hlocated, Checked.ok_bind,
      split_of_together (.inr rfl)]
    exact holdChecked_eq square bodies slots
  | succ depth ih =>
    rw [splitChecked, gatheredChecked_eq h hlocated, Checked.ok_bind]
    rcases htogether : together bodies with - | -
    · let part (q : Quarter) := inQuarter square q bodies
      let put (q : Quarter) (part : List Nat) := splitChecked places depth (square.quarter q) part
      let plain (q : Quarter) := split depth (square.quarter q) (part q)
      have hput : ∀ q (grown : Array (Slot F)), part q ≠ [] →
          put q ((part q).map (·.index)) grown = .ok (plain q grown) ∧
            grown.size ≤ (plain q grown).1.size := by
        intro q grown hne
        have hpart := hlocated.of_subset fun b (hb : b ∈ part q) => (mem_inQuarter.mp hb).1
        refine ⟨ih (square.quarter q) hne hpart grown, ?_⟩
        rw [(lays_split depth (square.quarter q) hne).size]
        exact Nat.le_add_right _ _
      have hbare : slots.size < (slots.push (.bare square bodies)).size := by
        rw [Array.size_push]
        exact Nat.lt_succ_self _
      -- quarters are put behind the slot of the square, which stays in range
      have hplaced := foldlM_eq_ok (P := fun grown => slots.size < grown.size) Quarter.all hbare
        fun grown hgrown q _ => placeChecked_eq hgrown (hput q grown)
      rw [sortChecked_eq square hlocated, split_of_apart depth htogether]
      simp only [Bool.false_eq_true, if_false, Checked.ok_bind]
      rw [hplaced.1]
      rfl
    · rw [split_of_together (.inl htogether)]
      exact holdChecked_eq square bodies slots

/-! ### Building -/

/-- A division that comes to its end has put the slots in order. -/
theorem ordered_of_splitChecked {depth : Nat} {square : Square F}
    {put : Array (Slot F) × Nat}
    (h : splitChecked places depth square numbers #[] = .ok put) : Ordered put.1 := by
  have hgathered : ∃ gathered, gatheredChecked places numbers = .ok gathered := by
    cases depth with
    | zero =>
      obtain ⟨gathered, hgathered, -⟩ := Checked.bind_eq_ok h
      exact ⟨gathered, hgathered⟩
    | succ depth =>
      obtain ⟨gathered, hgathered, -⟩ := Checked.bind_eq_ok h
      exact ⟨gathered, hgathered⟩
  obtain ⟨gathered, hgathered⟩ := hgathered
  obtain ⟨hne, rfl, hlocated⟩ := of_gatheredChecked hgathered
  rw [splitChecked_eq depth square hne hlocated] at h
  rw [← Except.ok.inj h]
  have hempty : Ordered (#[] : Array (Slot F)) := by
    intro i slot hslot
    cases hslot
  exact (puts_split depth square gathered.1 #[] hempty).1

/-- The tree of the points in an array, if there is a square that covers them. -/
def ofPointsChecked (places : Array (Vec F)) : Checked (Option (Quadtree F)) :=
  match Square.cover? places.toList with
  | none => .ok none
  | some square =>
    match h : splitChecked places depthLimit square (List.range places.size) #[] with
    | .error fault => .error fault
    | .ok put => .ok (some ⟨put.1, ordered_of_splitChecked h⟩)

omit [Scalar F] in
theorem located_bodiesOf (places : Array (Vec F)) :
    Located places (bodiesOf places.toList) := by
  intro b hb
  rw [← Array.getElem?_toList]
  exact getElem?_of_mem_bodiesOf hb

theorem ne_nil_of_cover {points : List (Vec F)} {square : Square F}
    (h : Square.cover? points = some square) : points ≠ [] := by
  rintro rfl
  cases h

theorem ofPointsChecked_eq (places : Array (Vec F)) :
    ofPointsChecked places = .ok (ofPoints? places.toList) := by
  rw [ofPointsChecked, ofPoints?]
  rcases hcover : Square.cover? places.toList with - | square
  · rfl
  · have hne : bodiesOf places.toList ≠ [] := by
      rw [← List.length_pos_iff, length_bodiesOf, List.length_pos_iff]
      exact ne_nil_of_cover hcover
    have hsplit : splitChecked places depthLimit square (List.range places.size) #[] =
        .ok (split depthLimit square (bodiesOf places.toList) #[]) := by
      rw [← splitChecked_eq depthLimit square hne (located_bodiesOf places),
        map_index_bodiesOf, Array.length_toList]
    show (match h : splitChecked places depthLimit square (List.range places.size) #[] with
      | .error fault => .error fault
      | .ok put => .ok (some ⟨put.1, ordered_of_splitChecked h⟩) :
        Checked (Option (Quadtree F))) = _
    split
    · next fault h =>
      rw [hsplit] at h
      cases h
    · next put h =>
      rw [hsplit] at h
      obtain rfl := Except.ok.inj h
      rfl

/-! ### Walks -/

/-- The squares met by a walk that has the given slots on its stack. -/
def followChecked (t : Quadtree F) (stop : Cell F → Bool) : (stack : List Nat) →
    Checked (List (Visit F))
  | [] => .ok []
  | i :: stack =>
    match _h : t.slots[i]? with
    | none => .error ⟨i, t.slots.size⟩
    | some slot =>
      return slot.visit :: (← t.followChecked stop
        (if stop slot.cell then stack else slot.childSlots ++ stack))
termination_by stack => ahead t.slots.size stack
decreasing_by
  split
  · exact ahead_lt_cons _ i stack
  · rw [ahead_append]
    exact Nat.add_lt_add_right (t.ahead_childSlots_lt _h) _

/-- The squares met by a walk from the root. -/
def walkChecked (stop : Cell F → Bool) (t : Quadtree F) : Checked (List (Visit F)) :=
  t.followChecked stop [0]

/-- The cell of the root. -/
def rootChecked (t : Quadtree F) : Checked (Cell F) := return (← entry t.slots 0).cell

/-- The points held in squares that come within `reach` of a point. -/
def nearChecked (t : Quadtree F) (p : Vec F) (reach : F) : Checked (List (Body F)) := do
  let reachSq := reach * reach
  let far (cell : Cell F) : Bool := reachSq < cell.square.distanceSq p
  let visits ← t.walkChecked far
  return (visits.filter fun v => !far v.cell).flatMap (·.bodies)

variable {t : Quadtree F}

omit [Scalar F] in
theorem followChecked_cons {i : Nat} {slot : Slot F} (h : t.slots[i]? = some slot)
    (stop : Cell F → Bool) (stack : List Nat) :
    t.followChecked stop (i :: stack) = (do
      return slot.visit :: (← t.followChecked stop
        (if stop slot.cell then stack else slot.childSlots ++ stack))) := by
  rw [followChecked]
  split
  · next hnone =>
    rw [h] at hnone
    cases hnone
  · next slot' hslot' =>
    obtain rfl := Option.some.inj (h.symm.trans hslot')
    rfl

omit [Scalar F] in
/-- A walk whose stack is in range comes to its end: quarters are in range. -/
theorem followChecked_eq (stop : Cell F → Bool) (stack : List Nat)
    (hstack : ∀ i ∈ stack, i < t.slots.size) :
    t.followChecked stop stack =
      .ok ((t.follow stop stack).filterMap fun i => t.slots[i]?.map Slot.visit) := by
  induction stack using follow.induct t stop with
  | case1 =>
    rw [followChecked, follow_nil]
    rfl
  | case2 i stack hnone =>
    have hi := hstack i List.mem_cons_self
    exact absurd (Array.getElem?_eq_none_iff.mp hnone) (Nat.not_le.mpr hi)
  | case3 i stack slot hslot ih =>
    have hrest : ∀ j ∈ (if stop slot.cell then stack else slot.childSlots ++ stack),
        j < t.slots.size := by
      have hbelow : ∀ j ∈ stack, j < t.slots.size :=
        fun j hj => hstack j (List.mem_cons_of_mem _ hj)
      split
      · exact hbelow
      · intro j hj
        rcases List.mem_append.mp hj with hj | hj
        · obtain ⟨q, -, hq⟩ := List.mem_filterMap.mp hj
          exact (t.ordered i slot hslot q j hq).2
        · exact hbelow j hj
    simp only [dite_eq_ite] at ih
    rw [followChecked_cons hslot, ih hrest, follow_cons hslot, List.filterMap_cons, hslot]
    rfl

/-! ### Trees of points -/

variable {points : List (Vec F)}

/-- The slots of a tree of points are those of its nest. -/
theorem exists_filled (h : ofPoints? points = some t) : ∃ square, Filled points square t := by
  obtain ⟨square, hcover, rfl⟩ := Option.map_eq_some_iff.mp h
  exact ⟨square, filled_ofBodies (ne_nil_of_cover hcover) square⟩

theorem size_pos_of_points (h : ofPoints? points = some t) : 0 < t.slots.size := by
  obtain ⟨square, hfilled⟩ := exists_filled h
  obtain ⟨root, hroot, -⟩ := hfilled.lies.exists_slot
  exact (Array.getElem?_eq_some_iff.mp hroot).1

theorem walkChecked_eq (h : ofPoints? points = some t) (stop : Cell F → Bool) :
    t.walkChecked stop = .ok (t.walk stop) := by
  refine t.followChecked_eq stop [0] fun i hi => ?_
  rw [List.mem_singleton.mp hi]
  exact size_pos_of_points h

theorem rootChecked_eq (h : ofPoints? points = some t) :
    ∃ cell, t.root? = some cell ∧ t.rootChecked = .ok cell := by
  obtain ⟨root, hroot⟩ := exists_entry (size_pos_of_points h)
  refine ⟨root.cell, ?_, ?_⟩
  · rw [root?, hroot]
    rfl
  · rw [rootChecked, entry_of_some hroot]
    rfl

theorem nearChecked_eq (h : ofPoints? points = some t) (p : Vec F) (reach : F) :
    t.nearChecked p reach = .ok (t.near p reach) := by
  rw [nearChecked, walkChecked_eq h]
  rfl

/-- What a walk meets are points of the tree. -/
theorem mem_bodiesOf_of_walk (h : ofPoints? points = some t) {stop : Cell F → Bool}
    {v : Visit F} (hv : v ∈ t.walk stop) {b : Body F} (hb : b ∈ v.bodies) :
    b ∈ bodiesOf points := by
  obtain ⟨square, hfilled⟩ := exists_filled h
  obtain ⟨i, -, hi⟩ := List.mem_filterMap.mp hv
  obtain ⟨slot, hslot, rfl⟩ := Option.map_eq_some_iff.mp hi
  exact (hfilled.bodiesAt_sublist i).subset (mem_bodiesAt.mpr ⟨slot, hslot, hb⟩)

theorem mem_bodiesOf_of_near (h : ofPoints? points = some t) {p : Vec F} {reach : F}
    {b : Body F} (hb : b ∈ t.near p reach) : b ∈ bodiesOf points := by
  obtain ⟨v, hv, hb⟩ := List.mem_flatMap.mp hb
  exact mem_bodiesOf_of_walk h (List.mem_of_mem_filter hv) hb

end Quadtree

end ForceDiagram
