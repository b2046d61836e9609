/-
ForceDiagram/Graph/Kind.lean

The types of edges.  Three are known and have a look of their own; every other
label stands for itself.
-/
namespace ForceDiagram

inductive Kind where
  | requestRejected
  | requestAccepted
  | response
  | other (label : String)
deriving DecidableEq, Repr

namespace Kind

def ofLabel (label : String) : Kind :=
  if label = "request-rejected" then .requestRejected
  else if label = "request-accepted" then .requestAccepted
  else if label = "response" then .response
  else .other label

def label : Kind → String
  | .requestRejected => "request-rejected"
  | .requestAccepted => "request-accepted"
  | .response => "response"
  | .other label => label

def isKnown : Kind → Bool
  | .other _ => false
  | _ => true

/-- Reading a label and writing it again gives the label back. -/
@[simp] theorem label_ofLabel (s : String) : (ofLabel s).label = s := by
  unfold ofLabel
  split
  · simp [label, *]
  · split
    · simp [label, *]
    · split <;> simp [label, *]

end Kind

end ForceDiagram
