/-
ForceDiagram/Proofs/Quadtree/Layout.lean

Where the squares of a nest lie.

`n.LaidAt slots i` says that the squares of `n` lie in an array from the slot `i`
on, each before its quarters and these in their order, every square with the
slots of its quarters.  A division lays its nest behind what is there before and
changes nothing of that (`lays_split`): the slot of a square is told about its
quarters one by one, and all that has been laid stays where it is.  A walk
through slots is then a walk through the nest (`follow_laid`), and if it stops
nowhere it meets the slots in their order (`order_of_not_stopping`).
-/
import ForceDiagram.Proofs.Quadtree.Nest

namespace ForceDiagram

variable {F : Type} [Scalar F]

namespace Nest

/-! ### Slots of squares -/

/-- How many slots lie between a square and the given quarter. -/
def before (part : Quarter → Nest F) (q : Quarter) : Nat :=
  ((Quarter.all.takeWhile (· ≠ q)).map fun p => (part p).size).sum

omit [Scalar F] in
/-- The slots from `i` on are those of the quarters, one quarter after the
other. -/
theorem range'_eq_flatMap (part : Quarter → Nest F) (i : Nat) :
    List.range' i (Quarter.all.map fun q => (part q).size).sum =
      Quarter.all.flatMap fun q => List.range' (i + before part q) (part q).size := by
  simp [Quarter.all, before, List.takeWhile, ← List.range'_append_1, Nat.add_assoc]

omit [Scalar F] in
theorem range'_size_fork (square : Square F) (bodies : List (Body F)) (part : Quarter → Nest F)
    (i : Nat) :
    List.range' i (fork square bodies part).size =
      i :: Quarter.all.flatMap fun q => List.range' (i + 1 + before part q) (part q).size := by
  rw [← range'_eq_flatMap part (i + 1), size, Nat.add_comm 1, List.range'_succ]

/-- The slot of a quarter that has squares, if those of all begin at `i`. -/
def child (part : Quarter → Nest F) (i : Nat) (q : Quarter) : Option Nat :=
  if (part q).isEmpty then none else some (i + before part q)

/-- The squares of a nest lie in the slots from `i` on. -/
def LaidAt (slots : Array (Slot F)) : Nest F → Nat → Prop
  | .empty, _ => True
  | .leaf square bodies, i => slots[i]? = some (.leaf square bodies)
  | .fork square bodies part, i =>
    slots[i]? = some ⟨.ofBodies square bodies, [], child part (i + 1)⟩ ∧
      ∀ q, (part q).LaidAt slots (i + 1 + before part q)

/-- What is laid stays laid where its slots stay the same. -/
theorem LaidAt.congr {slots slots' : Array (Slot F)} {n : Nest F} {i : Nat}
    (h : n.LaidAt slots i)
    (hsame : ∀ j, i ≤ j → j < slots.size → slots'[j]? = slots[j]?) : n.LaidAt slots' i := by
  induction n generalizing i with
  | empty => trivial
  | leaf square bodies =>
    have hi : i < slots.size := (Array.getElem?_eq_some_iff.mp h).1
    exact (hsame i (Nat.le_refl i) hi).trans h
  | fork square bodies part ih =>
    obtain ⟨hslot, hparts⟩ := h
    have hi : i < slots.size := (Array.getElem?_eq_some_iff.mp hslot).1
    refine ⟨(hsame i (Nat.le_refl i) hi).trans hslot, fun q => ih q (hparts q) ?_⟩
    intro j hj hsize
    exact hsame j (by omega) hsize

end Nest

namespace Quadtree

/-! ### Division lays nests -/

/-- `Lays put n`: the squares of `n` are put behind the other slots, which stay
as they are. -/
structure Lays (put : Array (Slot F) → Array (Slot F) × Nat) (n : Nest F) : Prop where
  slot : ∀ slots, (put slots).2 = slots.size
  size : ∀ slots, (put slots).1.size = slots.size + n.size
  old : ∀ slots j, j < slots.size → (put slots).1[j]? = slots[j]?
  laid : ∀ slots, n.LaidAt (put slots).1 slots.size

theorem lays_leaf (square : Square F) (bodies : List (Body F)) :
    Lays (fun slots => (slots.push (.leaf square bodies), slots.size)) (.leaf square bodies) where
  slot _ := rfl
  size slots := Array.size_push _
  old slots j hj := by
    rw [Array.getElem?_push, if_neg (Nat.ne_of_lt hj)]
  laid slots := by
    show (slots.push _)[slots.size]? = _
    rw [Array.getElem?_push, if_pos rfl]

/-- A square in division: the quarters in `done` have been laid and the square has
been told about them. -/
structure Divided (square : Square F) (bodies : List (Body F)) (part : Quarter → Nest F)
    (slots : Array (Slot F)) (done : List Quarter) (grown : Array (Slot F)) : Prop where
  size : grown.size = slots.size + 1 + (done.map fun q => (part q).size).sum
  old : ∀ j, j < slots.size → grown[j]? = slots[j]?
  parent : grown[slots.size]? = some
    ⟨.ofBodies square bodies, [],
      fun q => if q ∈ done then Nest.child part (slots.size + 1) q else none⟩
  laid : ∀ q ∈ done, (part q).LaidAt grown (slots.size + 1 + Nest.before part q)

variable {square : Square F} {bodies : List (Body F)} {part : Quarter → Nest F}
  {put : Quarter → Array (Slot F) → Array (Slot F) × Nat} {slots grown : Array (Slot F)}
  {done : List Quarter}

theorem divided_push (square : Square F) (bodies : List (Body F)) (part : Quarter → Nest F)
    (slots : Array (Slot F)) :
    Divided square bodies part slots [] (slots.push (.bare square bodies)) where
  size := Array.size_push _
  old j hj := by rw [Array.getElem?_push, if_neg (Nat.ne_of_lt hj)]
  parent := by
    rw [Array.getElem?_push, if_pos rfl]
    rfl
  laid _ hq := absurd hq List.not_mem_nil

omit [Scalar F] in
theorem sum_size_append (part : Quarter → Nest F) (done : List Quarter) (q : Quarter) :
    ((done ++ [q]).map fun q => (part q).size).sum =
      (done.map fun q => (part q).size).sum + (part q).size := by
  rw [List.map_append, List.sum_append, List.map_singleton, List.sum_singleton]

/-- A quarter without points needs no slot. -/
theorem Divided.skip (h : Divided square bodies part slots done grown) {q : Quarter}
    (hq : part q = .empty) : Divided square bodies part slots (done ++ [q]) grown where
  size := by
    rw [h.size, sum_size_append, hq]
    rfl
  old := h.old
  parent := by
    rw [h.parent]
    refine congrArg (fun children => some (Slot.mk (.ofBodies square bodies) [] children)) ?_
    funext p
    rcases eq_or_ne p q with rfl | hne
    · simp [Nest.child, hq, Nest.isEmpty]
    · simp [hne]
  laid := by
    intro p hp
    rcases List.mem_append.mp hp with hp | hp
    · exact h.laid p hp
    · obtain rfl := List.mem_singleton.mp hp
      rw [hq]
      trivial

/-- The next quarter is laid behind the others. -/
theorem Divided.add (h : Divided square bodies part slots done grown) {q : Quarter}
    (hdone : Quarter.all.takeWhile (· ≠ q) = done) (hq : (part q).isEmpty = false)
    (hput : Lays (put q) (part q)) :
    Divided square bodies part slots (done ++ [q])
      ((put q grown).1.modify slots.size (·.withChild q (put q grown).2)) := by
  obtain ⟨hslot, hsize, hold, hlaid⟩ := hput
  have hgrown := h.size
  have hstart : slots.size + 1 + Nest.before part q = grown.size := by
    rw [h.size, Nest.before, hdone]
  -- only the slot of the square itself is touched
  have hread : ∀ j, j ≠ slots.size →
      ((put q grown).1.modify slots.size (·.withChild q grown.size))[j]? =
        (put q grown).1[j]? := by
    intro j hj
    rw [Array.getElem?_modify, if_neg hj.symm]
  rw [hslot]
  refine ⟨?_, ?_, ?_, ?_⟩
  · rw [Array.size_modify, hsize, h.size, sum_size_append]
    omega
  · intro j hj
    rw [hread j (Nat.ne_of_lt hj), hold grown j (by omega)]
    exact h.old j hj
  · rw [Array.getElem?_modify, if_pos rfl, hold grown _ (by omega), h.parent, Option.map_some]
    refine congrArg (fun children => some (Slot.mk (.ofBodies square bodies) [] children)) ?_
    funext p
    rcases eq_or_ne p q with rfl | hne
    · rw [if_pos rfl, if_pos (by simp), Nest.child, if_neg (by simp [hq]), hstart]
    · rw [if_neg hne]
      simp [hne]
  · intro p hp
    rcases List.mem_append.mp hp with hp | hp
    · refine (h.laid p hp).congr fun j hj hjsize => ?_
      rw [hread j (by omega)]
      exact hold grown j hjsize
    · obtain rfl := List.mem_singleton.mp hp
      rw [hstart]
      exact (hlaid grown).congr fun j hj _ => hread j (by omega)

theorem Divided.place (h : Divided square bodies part slots done grown) {q : Quarter}
    (hdone : Quarter.all.takeWhile (· ≠ q) = done) {points : Quarter → List (Body F)}
    (hpoints : (part q).isEmpty = (points q).isEmpty)
    (hput : (points q).isEmpty = false → Lays (put q) (part q)) :
    Divided square bodies part slots (done ++ [q])
      (Quadtree.place put points slots.size grown q) := by
  rcases hempty : (points q).isEmpty with - | -
  · rw [place_of_points hempty]
    exact h.add hdone (hpoints.trans hempty) (hput hempty)
  · rw [place_of_isEmpty hempty]
    exact h.skip (Nest.isEmpty_iff.mp (hpoints.trans hempty))

/-- One quarter after the other, all are laid. -/
theorem divided_all {points : Quarter → List (Body F)}
    (hpoints : ∀ q, (part q).isEmpty = (points q).isEmpty)
    (hput : ∀ q, (points q).isEmpty = false → Lays (put q) (part q))
    (square : Square F) (bodies : List (Body F)) (slots : Array (Slot F)) :
    Divided square bodies part slots Quarter.all
      (Quarter.all.foldl (place put points slots.size) (slots.push (.bare square bodies))) := by
  have h₀ := divided_push square bodies part slots
  have h₁ := h₀.place (q := .upperLeft) rfl (hpoints _) (hput _)
  have h₂ := h₁.place (q := .upperRight) rfl (hpoints _) (hput _)
  have h₃ := h₂.place (q := .lowerLeft) rfl (hpoints _) (hput _)
  exact h₃.place (q := .lowerRight) rfl (hpoints _) (hput _)

theorem split_of_together {depth : Nat} (h : together bodies = true ∨ depth = 0) :
    split depth square bodies = fun slots =>
      (slots.push (.leaf square bodies), slots.size) := by
  funext slots
  cases depth with
  | zero => rfl
  | succ depth =>
    rw [split, if_pos (h.resolve_right (Nat.succ_ne_zero depth))]

theorem split_of_apart (depth : Nat) (h : together bodies = false) (slots : Array (Slot F)) :
    split (depth + 1) square bodies slots =
      (Quarter.all.foldl (place (fun q => split depth (square.quarter q)
          (inQuarter square q bodies)) (fun q => inQuarter square q bodies) slots.size)
        (slots.push (.bare square bodies)), slots.size) := by
  rw [split, if_neg (by simp [h])]

/-- A division lays its nest. -/
theorem lays_split (depth : Nat) (square : Square F) (h : bodies ≠ []) :
    Lays (split depth square bodies) (nest depth square bodies) := by
  refine nest_induction (motive := fun depth square bodies =>
      Lays (split depth square bodies) (nest depth square bodies))
    (fun depth square bodies h htogether => ?_)
    (fun depth square bodies h hapart ih => ?_) depth square h
  · rw [split_of_together htogether, nest_of_together h htogether]
    exact lays_leaf square bodies
  · have hdivided := divided_all
      (fun q => isEmpty_nest depth (square.quarter q) (inQuarter square q bodies))
      (fun q hq => ih q (by simpa using hq)) square bodies
    rw [nest_of_apart h hapart]
    refine ⟨fun slots => ?_, fun slots => ?_, fun slots => ?_, fun slots => ?_⟩
    · rw [split_of_apart depth hapart]
    · rw [split_of_apart depth hapart, (hdivided slots).size, Nest.size]
      omega
    · rw [split_of_apart depth hapart]
      exact (hdivided slots).old
    · rw [split_of_apart depth hapart]
      -- once all quarters are done, the square has been told about every one
      refine ⟨?_, fun q => (hdivided slots).laid q q.mem_all⟩
      rw [(hdivided slots).parent]
      simp only [Quarter.mem_all, if_true]

end Quadtree

/-! ### Walks -/

namespace Nest

/-- The slot of the outermost square, if there is one. -/
def root (n : Nest F) (i : Nat) : List Nat := if n.isEmpty then [] else [i]

/-- The slots that a walk meets in a nest laid from `i` on. -/
def order (stop : Cell F → Bool) : Nest F → Nat → List Nat
  | .empty, _ => []
  | .leaf _ _, i => [i]
  | .fork square bodies part, i =>
    i :: if stop (.ofBodies square bodies) then []
      else Quarter.all.flatMap fun q => (part q).order stop (i + 1 + before part q)

/-- The slots of a nest in their order. -/
theorem order_of_not_stopping (n : Nest F) (i : Nat) :
    n.order (fun _ => false) i = List.range' i n.size := by
  induction n generalizing i with
  | empty => rfl
  | leaf square bodies => rfl
  | fork square bodies part ih =>
    rw [order, if_neg Bool.false_ne_true, range'_size_fork]
    simp only [ih]

omit [Scalar F] in
theorem childSlots_eq_flatMap_root (cell : Cell F) (bodies : List (Body F))
    (part : Quarter → Nest F) (i : Nat) :
    (⟨cell, bodies, child part i⟩ : Slot F).childSlots =
      Quarter.all.flatMap fun q => (part q).root (i + before part q) := by
  rw [Slot.childSlots, List.filterMap_eq_flatMap_toList]
  congr 1
  funext q
  show (child part i q).toList = (part q).root (i + before part q)
  rw [child, root]
  split <;> rfl

end Nest

namespace Quadtree

omit [Scalar F] in
theorem follow_cons {t : Quadtree F} {i : Nat} {slot : Slot F} (h : t.slots[i]? = some slot)
    (stop : Cell F → Bool) (stack : List Nat) :
    t.follow stop (i :: stack) =
      i :: t.follow stop (if stop slot.cell then stack else slot.childSlots ++ stack) := by
  rw [follow]
  split
  · rename_i hnone
    rw [h] at hnone
    cases hnone
  · rename_i slot' hslot'
    obtain rfl := Option.some.inj (h.symm.trans hslot')
    rfl

/-- A walk with a nest on its stack goes through the nest and then on. -/
theorem follow_laid {t : Quadtree F} (stop : Cell F → Bool) {n : Nest F} {i : Nat}
    (h : n.LaidAt t.slots i) (stack : List Nat) :
    t.follow stop (n.root i ++ stack) = n.order stop i ++ t.follow stop stack := by
  induction n generalizing i stack with
  | empty => rfl
  | leaf square bodies =>
    show t.follow stop (i :: stack) = i :: t.follow stop stack
    rw [follow_cons h]
    -- a leaf has no quarters, so it does not matter whether the walk stops
    split <;> rfl
  | fork square bodies part ih =>
    obtain ⟨hslot, hparts⟩ := h
    show t.follow stop (i :: stack) = _
    rw [follow_cons hslot, Nest.order, Nest.childSlots_eq_flatMap_root]
    rcases hstop : stop (.ofBodies square bodies) with - | -
    · have hquarters : ∀ quarters : List Quarter,
          t.follow stop ((quarters.flatMap fun q =>
              (part q).root (i + 1 + Nest.before part q)) ++ stack) =
            (quarters.flatMap fun q => (part q).order stop (i + 1 + Nest.before part q)) ++
              t.follow stop stack := by
        intro quarters
        induction quarters with
        | nil => rfl
        | cons q rest ihrest =>
          rw [List.flatMap_cons, List.flatMap_cons, List.append_assoc, List.append_assoc,
            ih q (hparts q), ihrest]
      rw [if_neg (by simp), if_neg (by simp), hquarters, List.cons_append]
    · rw [if_pos rfl, if_pos rfl]
      rfl

end Quadtree

end ForceDiagram
