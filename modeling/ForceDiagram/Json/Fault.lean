/-
ForceDiagram/Json/Fault.lean

What can be wrong with a text that should be a value, and where.

Design.  A reader sees only the text that is left.  A `Fault` therefore records
how many bytes lay behind the faulty place, and line and column are counted
afterwards, on the whole text.  A place is a count of bytes from the start: the
fault of a missing or wrong byte includes that byte in the count, as far as the
text reaches.
-/
namespace ForceDiagram

namespace Json

/-- The ways in which a text fails to be a value. -/
inductive Cause where
  | endInValue
  | endInString
  | endInList
  | endInObject
  | expectedValue
  | expectedWord
  | invalidNumber
  | numberOutOfRange
  | controlCharacter
  | invalidEscape
  | endOfSurrogatePair
  | loneSurrogate
  | nestedTooDeep
  | expectedListSeparator
  | expectedObjectSeparator
  | expectedColon
  | expectedKey
  | trailingComma
  | trailingCharacters
deriving DecidableEq, Repr

/-- The wording of a cause. -/
def Cause.message : Cause → String
  | .endInValue => "EOF while parsing a value"
  | .endInString => "EOF while parsing a string"
  | .endInList => "EOF while parsing a list"
  | .endInObject => "EOF while parsing an object"
  | .expectedValue => "expected value"
  | .expectedWord => "expected ident"
  | .invalidNumber => "invalid number"
  | .numberOutOfRange => "number out of range"
  | .controlCharacter => "control character (\\u0000-\\u001F) found while parsing a string"
  | .invalidEscape => "invalid escape"
  | .endOfSurrogatePair => "unexpected end of hex escape"
  | .loneSurrogate => "lone leading surrogate in hex escape"
  | .nestedTooDeep => "recursion limit exceeded"
  | .expectedListSeparator => "expected `,` or `]`"
  | .expectedObjectSeparator => "expected `,` or `\x7d`"
  | .expectedColon => "expected `:`"
  | .expectedKey => "key must be a string"
  | .trailingComma => "trailing comma"
  | .trailingCharacters => "trailing characters"

/-- A cause, and the number of bytes of the text behind the faulty place. -/
structure Fault where
  cause : Cause
  behind : Nat
deriving DecidableEq, Repr

/-- The number of bytes of a text. -/
def byteCount (text : List Char) : Nat :=
  text.foldl (fun count c => count + c.utf8Size) 0

/-- A fault with the whole of `rest` behind it. -/
def Fault.before (cause : Cause) (rest : List Char) : Fault :=
  ⟨cause, byteCount rest⟩

/-- A fault in the first bytes of `rest`: they are counted to the faulty place. -/
def Fault.within (cause : Cause) (rest : List Char) (bytes : Nat) : Fault :=
  ⟨cause, byteCount rest - bytes⟩

/-- A fault in the first byte of `rest`, or at its end if it has none. -/
def Fault.at (cause : Cause) (rest : List Char) : Fault :=
  .within cause rest 1

/-- A place in a text: a line, counted from one, and the bytes of that line
before the place. -/
structure Place where
  line : Nat
  column : Nat
deriving DecidableEq, Repr

/-- Moves over the given number of bytes.  A line feed starts the next line. -/
def Place.advance : List Char → Nat → Place → Place
  | [], _, place => place
  | c :: rest, bytes, place =>
    if bytes = 0 then place
    else if c = '\n' then advance rest (bytes - 1) ⟨place.line + 1, 0⟩
    else advance rest (bytes - c.utf8Size) ⟨place.line, place.column + min bytes c.utf8Size⟩

/-- The place of a fault in the text it was found in. -/
def Fault.place (fault : Fault) (text : List Char) : Place :=
  .advance text (byteCount text - fault.behind) ⟨1, 0⟩

/-- The wording of a fault, with its place. -/
def Fault.message (fault : Fault) (text : List Char) : String :=
  let place := fault.place text
  fault.cause.message ++ " at line " ++ toString place.line ++ " column " ++ toString place.column

end Json

end ForceDiagram
