/-
ForceDiagram/Decimal/Literal.lean

Numbers as people write them on a command line.

A number is an optional sign and then either one of the words `inf`, `infinity`
and `nan` in any case, or digits with at most one point and an optional
exponent; a digit is needed on one side of the point.  Nothing else may stand
in the text, so `1_000`, `0x10` and a blank are refused.
-/
import ForceDiagram.Decimal.Shortest

namespace ForceDiagram

/-- A written number before it is rounded to any width. -/
inductive Literal where
  | notANumber
  | infinite (negative : Bool)
  | finite (negative : Bool) (size : Decimal)
deriving DecidableEq, Repr

namespace Literal

/-- The value of a run of digits. -/
def valueOf (digits : List Char) : Nat :=
  digits.foldl (fun value c => value * 10 + (c.toNat - '0'.toNat)) 0

/-- Splits an optional sign off; `true` for a minus. -/
def signOf : List Char → Bool × List Char
  | '-' :: rest => (true, rest)
  | '+' :: rest => (false, rest)
  | rest => (false, rest)

/-- The exponent after the digits: absent, or an `e` with a sign and digits. -/
def exponentOf : List Char → Option Int
  | [] => some 0
  | c :: rest =>
    if c = 'e' || c = 'E' then
      let (negative, digits) := signOf rest
      if digits.isEmpty || !digits.all Char.isDigit then none
      else some (if negative then -(valueOf digits : Int) else valueOf digits)
    else none

/-- An unsigned number of digits. -/
def sizeOf (text : List Char) : Option Decimal :=
  let whole := text.takeWhile Char.isDigit
  let (fraction, rest) :=
    match text.dropWhile Char.isDigit with
    | '.' :: after => (after.takeWhile Char.isDigit, after.dropWhile Char.isDigit)
    | after => ([], after)
  if whole.isEmpty && fraction.isEmpty then none
  else (exponentOf rest).map fun exponent =>
    ⟨valueOf (whole ++ fraction), exponent - fraction.length⟩

/-- Reads a number. -/
def read? (text : String) : Option Literal :=
  let (negative, size) := signOf text.toList
  let word := size.map Char.toLower
  if word = "inf".toList || word = "infinity".toList then some (.infinite negative)
  else if word = "nan".toList then some .notANumber
  else (sizeOf size).map (.finite negative)

end Literal

/-- Reads a count: digits after an optional plus, not above `most`. -/
def readCount? (most : Nat) (text : String) : Option Nat :=
  let digits := match text.toList with
    | '+' :: rest => rest
    | rest => rest
  if digits.isEmpty || !digits.all Char.isDigit then none
  else if Literal.valueOf digits ≤ most then some (Literal.valueOf digits) else none

end ForceDiagram
