/-
ForceDiagram/Quadtree/Basic.lean

The tree of a list of points, and walks through it.

The root lies in the first slot.  Walking goes from a square to its quarters,
the square first; a walk that is told to stop at some squares meets them, but
nothing inside them.  It keeps the slots still to be visited on a stack.  A walk
ends because quarters lie behind their squares, which is why a tree carries the
order of its slots.
-/
import ForceDiagram.Quadtree.Slots

namespace ForceDiagram

variable {F : Type} [Scalar F]

structure Quadtree (F : Type) where
  slots : Array (Slot F)
  ordered : Quadtree.Ordered slots

/-- What a walk sees of a square: its cell, the points held in it directly, and
whether it is a leaf. -/
structure Visit (F : Type) where
  cell : Cell F
  bodies : List (Body F)
  isLeaf : Bool

def Slot.visit (s : Slot F) : Visit F := ⟨s.cell, s.bodies, s.isLeaf⟩

namespace Quadtree

/-! ### Building -/

/-- Squares are divided at most this many times. -/
def depthLimit : Nat := 24

/-- The points with their numbers. -/
def bodiesOf (points : List (Vec F)) : List (Body F) :=
  points.zipIdx.map fun p => ⟨p.2, p.1⟩

/-- The tree of points in a square. -/
def ofBodies (square : Square F) (bodies : List (Body F)) : Quadtree F where
  slots := (split depthLimit square bodies #[]).1
  ordered := (puts_split depthLimit square bodies #[] nofun).1

/-- The tree of points, if there is a square that covers them. -/
def ofPoints? (points : List (Vec F)) : Option (Quadtree F) :=
  (Square.cover? points).map fun square => ofBodies square (bodiesOf points)

/-- The cell of the root. -/
def root? (t : Quadtree F) : Option (Cell F) := t.slots[0]?.map (·.cell)

/-! ### Walking -/

/-- What a slot counts for with so many slots from it on: five times as much as a
slot further back. -/
def weight : Nat → Nat
  | 0 => 1
  | n + 1 => 5 * weight n

theorem weight_pos (n : Nat) : 0 < weight n := by
  induction n with
  | zero => exact Nat.one_pos
  | succ n ih =>
    rw [weight]
    omega

theorem weight_mono {m n : Nat} (h : m ≤ n) : weight m ≤ weight n := by
  induction h with
  | refl => exact Nat.le_refl _
  | step _ ih =>
    rw [weight]
    omega

/-- What is ahead of a walk with the given slots on its stack. -/
def ahead (size : Nat) : (stack : List Nat) → Nat
  | [] => 0
  | i :: stack => weight (size - i) + ahead size stack

theorem ahead_lt_cons (size i : Nat) (stack : List Nat) :
    ahead size stack < ahead size (i :: stack) :=
  Nat.lt_add_of_pos_left (weight_pos _)

theorem ahead_append (size : Nat) (stack stack' : List Nat) :
    ahead size (stack ++ stack') = ahead size stack + ahead size stack' := by
  induction stack with
  | nil => exact (Nat.zero_add _).symm
  | cons i rest ih => rw [List.cons_append, ahead, ahead, ih, Nat.add_assoc]

omit [Scalar F] in
/-- More is ahead of a slot than of its quarters, of which there are at most four. -/
theorem ahead_childSlots_lt (t : Quadtree F) {i : Nat} {slot : Slot F}
    (hslot : t.slots[i]? = some slot) :
    ahead t.slots.size slot.childSlots < weight (t.slots.size - i) := by
  have hsum : ∀ children : List Nat, (∀ c ∈ children, i < c ∧ c < t.slots.size) →
      ahead t.slots.size children ≤ children.length * weight (t.slots.size - i - 1) := by
    intro children
    induction children with
    | nil => intro _; exact Nat.zero_le _
    | cons c rest ih =>
      intro hbehind
      have hc := hbehind c List.mem_cons_self
      have hrest := ih fun c hc => hbehind c (List.mem_cons_of_mem _ hc)
      have hweight : weight (t.slots.size - c) ≤ weight (t.slots.size - i - 1) :=
        weight_mono (by omega)
      rw [List.length_cons, Nat.succ_mul, ahead]
      omega
  have hbehind : ∀ c ∈ slot.childSlots, i < c ∧ c < t.slots.size := by
    intro c hc
    obtain ⟨q, -, hq⟩ := List.mem_filterMap.mp hc
    exact t.ordered i slot hslot q c hq
  have hfour : slot.childSlots.length ≤ 4 := List.length_filterMap_le _ _
  have hi : i < t.slots.size := (Array.getElem?_eq_some_iff.mp hslot).1
  have hstep : weight (t.slots.size - i) = 5 * weight (t.slots.size - i - 1) := by
    obtain ⟨further, hfurther⟩ : ∃ further, t.slots.size - i = further + 1 :=
      ⟨t.slots.size - i - 1, by omega⟩
    rw [hfurther, Nat.add_sub_cancel, weight]
  have hpos := weight_pos (t.slots.size - i - 1)
  calc ahead t.slots.size slot.childSlots
      ≤ slot.childSlots.length * weight (t.slots.size - i - 1) := hsum _ hbehind
    _ ≤ 4 * weight (t.slots.size - i - 1) := Nat.mul_le_mul_right _ hfour
    _ < weight (t.slots.size - i) := by omega

/-- The slots met by a walk that has the given ones on its stack. -/
def follow (t : Quadtree F) (stop : Cell F → Bool) : (stack : List Nat) → List Nat
  | [] => []
  | i :: stack =>
    match _h : t.slots[i]? with
    | none => t.follow stop stack
    | some slot =>
      i :: t.follow stop (if stop slot.cell then stack else slot.childSlots ++ stack)
termination_by stack => ahead t.slots.size stack
decreasing_by
  · exact ahead_lt_cons _ i stack
  · split
    · exact ahead_lt_cons _ i stack
    · rw [ahead_append]
      exact Nat.add_lt_add_right (t.ahead_childSlots_lt _h) _

/-- The slots met by a walk from the root. -/
def order (t : Quadtree F) (stop : Cell F → Bool) : List Nat := t.follow stop [0]

/-- The squares from the root down, each before its quarters, and none inside a
square at which the walk stops. -/
def walk (stop : Cell F → Bool) (t : Quadtree F) : List (Visit F) :=
  (t.order stop).filterMap fun i => t.slots[i]?.map Slot.visit

/-- All squares. -/
def visits (t : Quadtree F) : List (Visit F) := t.walk fun _ => false

/-- The points held in squares that come within `reach` of a point.  A point in
such a square may itself be further away. -/
def near (t : Quadtree F) (p : Vec F) (reach : F) : List (Body F) :=
  let reachSq := reach * reach
  let far (cell : Cell F) : Bool := reachSq < cell.square.distanceSq p
  ((t.walk far).filter fun v => !far v.cell).flatMap (·.bodies)

end Quadtree

end ForceDiagram
