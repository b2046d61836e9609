/-
ForceDiagram/Dataset/Record.lean

One record of a dataset: an edge with a type between two named ends.

A record is written either as an object with the members `source`, `target` and
`type`, other members being of no account, or as an array of exactly these three
strings.  The first fault found is the one reported: in an object the members
are looked at in the order just given, first for values that are no strings and
then for members that are missing; in an array entry by entry, and its length
last.
-/
import ForceDiagram.Json.Value

namespace ForceDiagram

structure Record where
  source : String
  target : String
  kind : String
deriving DecidableEq, Repr

namespace Record

/-- The members of a record. -/
inductive Field where
  | source
  | target
  | kind
deriving DecidableEq, Repr

namespace Field

/-- The name of the member that holds the field. -/
def name : Field → String
  | .source => "source"
  | .target => "target"
  | .kind => "type"

end Field

/-- What keeps a value from being a record. -/
inductive Misfit where
  | noRecord (found : Json)
  | noString (found : Json)
  | missing (field : Field)
  | tooShort (length : Nat)
  | tooLong (length : Nat)

/-- The wording of a misfit. -/
def Misfit.message : Misfit → String
  | .noRecord found => "invalid type: " ++ found.described ++ ", expected struct RawEdge"
  | .noString found => "invalid type: " ++ found.described ++ ", expected a string"
  | .missing field => "missing field `" ++ field.name ++ "`"
  | .tooShort length =>
    "invalid length " ++ toString length ++ ", expected struct RawEdge with 3 elements"
  | .tooLong length =>
    "invalid length " ++ toString length ++ ", expected fewer elements in array"

/-- A value that has to be a string. -/
def stringOf : Json → Except Misfit String
  | .string s => .ok s
  | other => .error (.noString other)

/-- Reads the entries of a record written as an array. -/
def ofEntries (entries : List Json) : Except Misfit Record := do
  match ← (entries.take 3).mapM stringOf with
  | [source, target, kind] =>
    if entries.length = 3 then return ⟨source, target, kind⟩
    else .error (.tooLong entries.length)
  | strings => .error (.tooShort strings.length)

/-- The string that a member holds, if the member is there. -/
def fieldOf (members : List (String × Json)) (field : Field) :
    Except Misfit (Option String) :=
  match Json.lookup? field.name members with
  | some found => (stringOf found).map some
  | none => .ok none

/-- A field that has to be there. -/
def required (field : Field) : Option String → Except Misfit String
  | some s => .ok s
  | none => .error (.missing field)

/-- Reads the members of a record written as an object. -/
def ofMembers (members : List (String × Json)) : Except Misfit Record := do
  let source ← fieldOf members .source
  let target ← fieldOf members .target
  let kind ← fieldOf members .kind
  return ⟨← required .source source, ← required .target target, ← required .kind kind⟩

/-- Reads a record. -/
def ofJson : Json → Except Misfit Record
  | .array entries => ofEntries entries
  | .object members => ofMembers members
  | other => .error (.noRecord other)

end Record

end ForceDiagram
