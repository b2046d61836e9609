/-
ForceDiagram/Json/Value.lean

Values of the data format that datasets are written in.

An object keeps its members in the order of the text, repeated names included;
looking a name up finds the last member of that name.  A number keeps whether
it was written as a whole number that a word of sixty-four bits can hold,
because messages tell the two apart.
-/
import ForceDiagram.Decimal.Binary
import ForceDiagram.Decimal.Layout
import ForceDiagram.Text.Quoted

namespace ForceDiagram

namespace Json

inductive Number where
  | whole (value : Int)
  | real (value : Float)

/-- A number as messages write it. -/
def Number.text : Number → String
  | .whole n => toString n
  | .real x =>
    match BinaryNumber.ofBits .double x.toBits.toNat with
    | .notANumber => "NaN"
    | .infinite negative => if negative then "-inf" else "inf"
    | .finite negative significand exponent narrow =>
      let size := (BinaryNumber.decimal .toEven significand exponent narrow).forMessage
      if negative then "-" ++ size else size

end Json

inductive Json where
  | null
  | bool (value : Bool)
  | number (value : Json.Number)
  | string (value : String)
  | array (entries : List Json)
  | object (members : List (String × Json))

namespace Json

/-- The value of the last member with the given name. -/
def lookup? (name : String) (members : List (String × Json)) : Option Json :=
  (members.reverse.find? fun member => member.1 == name).map (·.2)

/-- A value as a message about a misplaced value names it. -/
def described : Json → String
  | .null => "null"
  | .bool value => "boolean `" ++ toString value ++ "`"
  | .number (.whole n) => "integer `" ++ (Number.whole n).text ++ "`"
  | .number (.real x) => "floating point `" ++ (Number.real x).text ++ "`"
  | .string s => "string " ++ Quoted.text s
  | .array _ => "sequence"
  | .object _ => "map"

end Json

end ForceDiagram
