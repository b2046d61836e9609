/-
ForceDiagram/Dataset/Denoting.lean

The texts that stand for a list of records, whoever reads them.

A record is an object in which each of its three members stands once, whatever else stands
there, or an array of its three strings.  A dataset is an array of records, or an object
whose last member named `links` is one.
-/
import ForceDiagram.Dataset.Record
import ForceDiagram.Json.Grammar
import Mathlib.Data.List.Forall2

namespace ForceDiagram

/-- The values that stand for a record. -/
inductive Record.IsWritten (r : Record) : Json → Prop where
  | entries : r.IsWritten (.array [.string r.source, .string r.target, .string r.kind])
  | members {ms : List (String × Json)}
    (hsource : (ms.filter fun m => m.1 == "source") = [("source", .string r.source)])
    (htarget : (ms.filter fun m => m.1 == "target") = [("target", .string r.target)])
    (hkind : (ms.filter fun m => m.1 == "type") = [("type", .string r.kind)]) :
    r.IsWritten (.object ms)

namespace Dataset

/-- The values that stand for a list of records. -/
inductive IsWritten (records : List Record) : Json → Prop where
  | bare {es : List Json} (h : List.Forall₂ Record.IsWritten records es) :
    IsWritten records (.array es)
  | links {before after : List (String × Json)} {es : List Json}
    (hlast : ∀ m ∈ after, m.1 ≠ "links") (h : List.Forall₂ Record.IsWritten records es) :
    IsWritten records (.object (before ++ ("links", .array es) :: after))

/-- A text stands for a list of records: it is a value that does, between blanks, and
nothing in it is nested 128 deep. -/
def Denotes (text : List Char) (records : List Record) : Prop :=
  ∃ json, IsWritten records json ∧ Json.Padded (Json.Writes 127 json) text

end Dataset

end ForceDiagram
