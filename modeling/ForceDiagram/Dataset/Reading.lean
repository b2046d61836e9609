/-
ForceDiagram/Dataset/Reading.lean

Reading a dataset from its text: an array of records, or an object whose last
member named `links` is such an array.  Nothing is returned unless every entry
is a record; otherwise the first entry that is none is reported by its index.
-/
import ForceDiagram.Dataset.Record
import ForceDiagram.Json.Reader

namespace ForceDiagram

namespace Dataset

/-- What keeps a text from being a dataset. -/
inductive ReadError where
  | invalidText (text : List Char) (fault : Json.Fault)
  | noLinks
  | noDataset
  | invalidRecord (index : Nat) (misfit : Record.Misfit)

/-- The wording of an error, from the outermost cause to the innermost. -/
def ReadError.causes : ReadError → List String
  | .invalidText text fault => ["invalid JSON in dataset", fault.message text]
  | .noLinks => ["dataset object has no `links` array"]
  | .noDataset => ["unexpected JSON type for dataset; expected an array of edges"]
  | .invalidRecord index misfit =>
    ["invalid edge record at index " ++ toString index, misfit.message]

/-- The entries of a dataset that are to be its records. -/
def entriesOf : Json → Except ReadError (List Json)
  | .array entries => .ok entries
  | .object members =>
    match Json.lookup? "links" members with
    | some (.array entries) => .ok entries
    | _ => .error .noLinks
  | _ => .error .noDataset

/-- Reads records, the first of which has the given index. -/
def recordsFrom (index : Nat) : List Json → Except ReadError (List Record)
  | [] => .ok []
  | entry :: entries =>
    match Record.ofJson entry with
    | .error misfit => .error (.invalidRecord index misfit)
    | .ok record => do
      let records ← recordsFrom (index + 1) entries
      return record :: records

/-- The records a value denotes. -/
def ofJson (document : Json) : Except ReadError (List Record) := do
  let entries ← entriesOf document
  recordsFrom 0 entries

/-- Reads a dataset. -/
def read (text : String) : Except ReadError (List Record) :=
  match Json.parse text.toList with
  | .error fault => .error (.invalidText text.toList fault)
  | .ok document => ofJson document

end Dataset

/-- Wordings of causes, the outermost first, as one line. -/
def causeLine (causes : List String) : String :=
  ": ".intercalate causes

end ForceDiagram
