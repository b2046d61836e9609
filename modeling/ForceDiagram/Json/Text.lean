/-
ForceDiagram/Json/Text.lean

What the readers of values share: a reader's type, and stepping over blanks.
-/
import ForceDiagram.Json.Fault

namespace ForceDiagram

namespace Json

/-- What a reader hands back: a value and the text after it, which is shorter
than the text it was given, so that reading on always ends. -/
structure Taken (α : Type) (text : List Char) where
  value : α
  rest : List Char
  shorter : rest.length < text.length

/-- A reader takes a value off the front of a text. -/
abbrev Reader (α : Type) := (text : List Char) → Except Fault (Taken α text)

/-- A text that is no longer than another. -/
abbrev Tail (text : List Char) := { rest : List Char // rest.length ≤ text.length }

theorem length_dropWhile_le {α : Type} (p : α → Bool) (l : List α) :
    (l.dropWhile p).length ≤ l.length :=
  (List.dropWhile_suffix p).length_le

/-- The characters that may stand between the parts of a value. -/
def isBlank (c : Char) : Bool :=
  c = ' ' || c = '\n' || c = '\t' || c = '\r'

/-- The text from its first character that is no blank. -/
def skipBlanks (text : List Char) : List Char :=
  text.dropWhile isBlank

theorem length_skipBlanks_le (text : List Char) : (skipBlanks text).length ≤ text.length :=
  length_dropWhile_le isBlank text

end Json

end ForceDiagram
