/-
ForceDiagram/Text/Quoted.lean

A text quoted inside a message.  Quotes, backslashes and the common controls
have short forms, every other character that cannot be printed on its own is
shown by its code, and the rest stands as it is, so that the quoted form is one
line and ends at its closing quote.
-/
import ForceDiagram.Text.Unprinted

namespace ForceDiagram

namespace Quoted

/-- The digits of a code, in lower-case hexadecimal. -/
def hex (n : Nat) : String :=
  String.ofList (Nat.toDigits 16 n)

/-- One character of a quoted text. -/
def char (c : Char) : String :=
  match c with
  | '"' => "\\\""
  | '\\' => "\\\\"
  | '\n' => "\\n"
  | '\r' => "\\r"
  | '\t' => "\\t"
  | '\x00' => "\\0"
  | c => if isUnprinted c then "\\u\x7b" ++ hex c.toNat ++ "\x7d" else c.toString

/-- A text between quotes. -/
def text (s : String) : String :=
  "\"" ++ String.join (s.toList.map char) ++ "\""

end Quoted

end ForceDiagram
