/-
ForceDiagram/Graph/Bow.lean

Which edges bow to a side.

Two edges that run back and forth between the same nodes would be drawn on one
line, so they bow apart: the earlier one is flagged `forth`, the later one
`back`.  An edge that finds no partner stays straight.

Design.  Edges are looked at in order.  An edge that no earlier one has taken as
its partner takes the first later edge that runs the other way and is not taken
yet.  What has been taken is carried along as a list of positions.  A self-loop
runs the other way to itself, and so pairs with the next self-loop on its node.
-/
namespace ForceDiagram

/-- The side to which an edge bows. -/
inductive Bow where
  | back
  | straight
  | forth
deriving DecidableEq, Repr

namespace Bow

def toInt : Bow → Int
  | .back => -1
  | .straight => 0
  | .forth => 1

/-- The nodes at the two ends of an edge, by their numbers. -/
abbrev Ends := Nat × Nat

/-- The position of the first edge that runs the other way and is not taken. -/
def partner? (taken : List Nat) (ends : Ends) (later : List (Ends × Nat)) : Option Nat :=
  (later.find? fun edge => edge.1 == ends.swap && !taken.contains edge.2).map (·.2)

/-- Flags edges given with their positions, some of which are taken already. -/
def assign (taken : List Nat) : List (Ends × Nat) → List Bow
  | [] => []
  | (ends, position) :: later =>
    if taken.contains position then .back :: assign taken later
    else
      match partner? taken ends later with
      | some partner => .forth :: assign (partner :: taken) later
      | none => .straight :: assign taken later

/-- The flags of edges in their order. -/
def ofEnds (ends : List Ends) : List Bow :=
  assign [] ends.zipIdx

theorem length_assign (taken : List Nat) (edges : List (Ends × Nat)) :
    (assign taken edges).length = edges.length := by
  induction edges generalizing taken with
  | nil => rfl
  | cons edge later ih =>
    obtain ⟨ends, position⟩ := edge
    simp only [assign]
    split
    · simp [ih]
    · split <;> simp [ih]

/-- There is one flag for each edge. -/
@[simp] theorem length_ofEnds (ends : List Ends) : (ofEnds ends).length = ends.length := by
  simp [ofEnds, length_assign]

end Bow

end ForceDiagram
