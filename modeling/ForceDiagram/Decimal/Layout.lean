/-
ForceDiagram/Decimal/Layout.lean

Writing a decimal: the plain layout with a point, and the layout with an
exponent that very large and very small numbers take in messages.
-/
import ForceDiagram.Decimal.Shortest

namespace ForceDiagram

namespace Decimal

/-- `count` zeros. -/
def zeros (count : Nat) : String :=
  String.ofList (List.replicate count '0')

/-- The exponent of the leading digit. -/
def magnitude (d : Decimal) : Int :=
  d.exponent + (toString d.digits).length - 1

/-- Every digit of the number, with a point only where a fraction follows:
`1200`, `6.25`, `0.005`. -/
def plain (d : Decimal) : String :=
  let digits := (toString d.digits).toList
  let fraction := (-d.exponent).toNat
  if fraction = 0 then String.ofList digits ++ zeros d.exponent.toNat
  else if digits.length ≤ fraction then
    "0." ++ zeros (fraction - digits.length) ++ String.ofList digits
  else
    let whole := digits.length - fraction
    String.ofList (digits.take whole) ++ "." ++ String.ofList (digits.drop whole)

/-- One digit before the point, and a signed exponent: `1.5e-7`, `1e+21`. -/
def exponential (d : Decimal) : String :=
  let digits := (toString d.digits).toList
  let fraction := if digits.length ≤ 1 then "" else "." ++ String.ofList (digits.drop 1)
  let sign := if d.magnitude < 0 then "-" else "+"
  String.ofList (digits.take 1) ++ fraction ++ "e" ++ sign ++ toString d.magnitude.natAbs

/-- The layout of messages: plain from `10 ^ -5` up to below `10 ^ 16`, with a
fraction digit even for whole numbers, and exponential outside that range. -/
def forMessage (d : Decimal) : String :=
  if d.digits = 0 then "0.0"
  else if -5 ≤ d.magnitude && d.magnitude ≤ 15 then
    if d.exponent < 0 then d.plain else d.plain ++ ".0"
  else d.exponential

end Decimal

end ForceDiagram
