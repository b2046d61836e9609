/-
ForceDiagram/Quadtree/Slots.lean

Points sorted into nested squares, which lie in slots one after the other.

Design.  All squares of a tree lie in one array, and a square knows its quarters
by their slots.  A square is put into the next free slot, then its quarters one
after the other, each with all that is inside it, and after each quarter the
square is told where it went.  So a quarter lies behind its square, and walks
from slot to slot come to an end (`Ordered`).

A square whose points are one, or all at one place, or that lies at the greatest
depth, is a leaf and holds its points; any other square is divided, and each
quarter takes the points that belong to it.  The recursion is on the depth that
is left, so it ends whatever the comparisons of coordinates say.  A quarter
without points has no slot.
-/
import ForceDiagram.Quadtree.Square

namespace ForceDiagram

variable {F : Type} [Scalar F]

/-- A point with its number in the list the tree was built from. -/
structure Body (F : Type) where
  index : Nat
  pos : Vec F

/-- A square of the tree, with the number of points in it and their mean. -/
structure Cell (F : Type) where
  square : Square F
  mass : F
  center : Vec F

/-- The cell of a square with the given points. -/
def Cell.ofBodies (square : Square F) (bodies : List (Body F)) : Cell F :=
  let mass : F := Scalar.ofNat bodies.length
  ⟨square, mass, bodies.foldl (fun sum b => sum + b.pos) Vec.zero / mass⟩

/-- A square in its place among the others. -/
structure Slot (F : Type) where
  cell : Cell F
  /-- The points held in the square directly. -/
  bodies : List (Body F)
  /-- The slots of the quarters that have points. -/
  children : Quarter → Option Nat

namespace Slot

/-- A square that holds its points. -/
def leaf (square : Square F) (bodies : List (Body F)) : Slot F :=
  ⟨.ofBodies square bodies, bodies, fun _ => none⟩

/-- A square that is going to be divided. -/
def bare (square : Square F) (bodies : List (Body F)) : Slot F :=
  ⟨.ofBodies square bodies, [], fun _ => none⟩

/-- The square with a quarter in the given slot. -/
def withChild (s : Slot F) (q : Quarter) (child : Nat) : Slot F :=
  { s with children := fun p => if p = q then some child else s.children p }

def isLeaf (s : Slot F) : Bool := Quarter.all.all fun q => (s.children q).isNone

/-- The slots of the quarters, in their order. -/
def childSlots (s : Slot F) : List Nat := Quarter.all.filterMap s.children

end Slot

namespace Quadtree

/-! ### Division -/

/-- Whether all points are at one place. -/
def coincide : List (Body F) → Bool
  | [] => true
  | first :: rest => (first :: rest).all fun b => b.pos == first.pos

/-- Whether points stay together at every depth. -/
def together (bodies : List (Body F)) : Bool := bodies.length = 1 || coincide bodies

/-- The points that belong to a quarter. -/
def inQuarter (square : Square F) (q : Quarter) (bodies : List (Body F)) : List (Body F) :=
  bodies.filter fun b => square.quarterOf b.pos = q

/-- Puts one quarter behind the other slots, unless it has no points, and tells
the square in the slot `parent`. -/
def place (put : Quarter → Array (Slot F) → Array (Slot F) × Nat)
    (part : Quarter → List (Body F)) (parent : Nat) (slots : Array (Slot F)) (q : Quarter) :
    Array (Slot F) :=
  if (part q).isEmpty then slots
  else
    let (slots, child) := put q slots
    slots.modify parent (·.withChild q child)

/-- Puts a square with the given points behind the other slots, and all that is
inside it, divided at most `depth` times; the slot it has been put into. -/
def split (depth : Nat) (square : Square F) (bodies : List (Body F))
    (slots : Array (Slot F)) : Array (Slot F) × Nat :=
  match depth with
  | 0 => (slots.push (.leaf square bodies), slots.size)
  | depth + 1 =>
    if together bodies then (slots.push (.leaf square bodies), slots.size)
    else
      let part (q : Quarter) := inQuarter square q bodies
      let put (q : Quarter) := split depth (square.quarter q) (part q)
      (Quarter.all.foldl (place put part slots.size) (slots.push (.bare square bodies)),
        slots.size)

/-! ### The order of slots -/

/-- The quarters of every square lie behind it. -/
def Ordered (slots : Array (Slot F)) : Prop :=
  ∀ i slot, slots[i]? = some slot → ∀ q child, slot.children q = some child →
    i < child ∧ child < slots.size

omit [Scalar F] in
theorem ordered_push {slots : Array (Slot F)} (h : Ordered slots) (slot : Slot F)
    (hslot : ∀ q, slot.children q = none) : Ordered (slots.push slot) := by
  intro i s hs q child hchild
  rw [Array.getElem?_push] at hs
  split at hs
  · -- the new square has no quarters yet
    rw [← Option.some.inj hs, hslot] at hchild
    exact absurd hchild nofun
  · have hbehind := h i s hs q child hchild
    rw [Array.size_push]
    omega

omit [Scalar F] in
theorem ordered_withChild {slots : Array (Slot F)} (h : Ordered slots) {parent child : Nat}
    (hparent : parent < child) (hchild : child < slots.size) (q : Quarter) :
    Ordered (slots.modify parent (·.withChild q child)) := by
  intro i s hs p c hc
  rw [Array.size_modify]
  rw [Array.getElem?_modify] at hs
  split at hs
  · obtain ⟨s', hs', rfl⟩ := Option.map_eq_some_iff.mp hs
    subst i
    simp only [Slot.withChild] at hc
    -- the square has the quarters it had, and one more
    split at hc
    · rw [← Option.some.inj hc]
      exact ⟨hparent, hchild⟩
    · exact h parent s' hs' p c hc
  · exact h i s hs p c hc

section

variable {put : Quarter → Array (Slot F) → Array (Slot F) × Nat} {part : Quarter → List (Body F)}

omit [Scalar F] in
theorem place_of_isEmpty {q : Quarter} (h : (part q).isEmpty = true) (parent : Nat)
    (slots : Array (Slot F)) : place put part parent slots q = slots := if_pos h

omit [Scalar F] in
theorem place_of_points {q : Quarter} (h : (part q).isEmpty = false) (parent : Nat)
    (slots : Array (Slot F)) :
    place put part parent slots q =
      (put q slots).1.modify parent (·.withChild q (put q slots).2) := if_neg (by simp [h])

/-- `Puts put`: what `put` puts behind the other slots begins in the next one and
keeps the order. -/
def Puts (put : Array (Slot F) → Array (Slot F) × Nat) : Prop :=
  ∀ slots, Ordered slots →
    Ordered (put slots).1 ∧ (put slots).2 = slots.size ∧ slots.size < (put slots).1.size

omit [Scalar F] in
theorem ordered_place (hput : ∀ q, Puts (put q)) {parent : Nat} {slots : Array (Slot F)}
    (h : Ordered slots) (hparent : parent < slots.size) (q : Quarter) :
    Ordered (place put part parent slots q) ∧ parent < (place put part parent slots q).size := by
  rcases hq : (part q).isEmpty with - | -
  · obtain ⟨hordered, hslot, hsize⟩ := hput q slots h
    rw [place_of_points hq, hslot, Array.size_modify]
    exact ⟨ordered_withChild hordered hparent hsize q, Nat.lt_trans hparent hsize⟩
  · rw [place_of_isEmpty hq]
    exact ⟨h, hparent⟩

end

theorem puts_split (depth : Nat) (square : Square F) (bodies : List (Body F)) :
    Puts (split depth square bodies) := by
  have hpush : ∀ slots : Array (Slot F), ∀ slot, slots.size < (slots.push slot).size := by
    intro slots slot
    rw [Array.size_push]
    omega
  induction depth generalizing square bodies with
  | zero =>
    intro slots h
    exact ⟨ordered_push h _ fun _ => rfl, rfl, hpush slots _⟩
  | succ depth ih =>
    intro slots h
    rw [split]
    split
    · exact ⟨ordered_push h _ fun _ => rfl, rfl, hpush slots _⟩
    · -- each quarter in turn keeps the order
      have hdivided := List.foldlRecOn Quarter.all
        (place (fun q => split depth (square.quarter q) (inQuarter square q bodies))
          (fun q => inQuarter square q bodies) slots.size)
        (motive := fun grown => Ordered grown ∧ slots.size < grown.size)
        ⟨ordered_push h (.bare square bodies) fun _ => rfl, hpush slots _⟩
        (fun grown hgrown q _ => ordered_place (fun q => ih _ _) hgrown.1 hgrown.2 q)
      exact ⟨hdivided.1, rfl, hdivided.2⟩

end Quadtree

end ForceDiagram
