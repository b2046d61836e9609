/-
ForceDiagram/Scalar/Basic.lean

The numbers a diagram is laid out with.

Design.  Layout code needs arithmetic, three comparisons, a handful of
functions and a way to write a number; which numbers these are it never asks.
`Scalar` lists exactly those operations and no laws, so that every definition
of the layout reads the same for rounded numbers as for exact ones.  A theorem
that needs a law (comparison is total, subtraction is antisymmetric) states it
as a hypothesis and so says how little of the arithmetic it depends on.

Rounded arithmetic is not associative: definitions that follow fix the order of
their operations, and no proof may reassociate them.
-/
import ForceDiagram.Decimal.Literal

namespace ForceDiagram

/-- Numbers with the operations a layout uses. -/
class Scalar (F : Type) extends Add F, Sub F, Mul F, Div F, Neg F, LT F, LE F, BEq F where
  decLt : DecidableLT F
  decLe : DecidableLE F
  /-- The number nearest to a whole number. -/
  ofNat : Nat → F
  /-- The number nearest to `digits * 10 ^ exponent`; the flag negates the exponent. -/
  ofDecimal : Nat → Bool → Nat → F
  /-- Neither infinite nor the value that is no number. -/
  isFinite : F → Bool
  /-- The greatest whole number not above. -/
  floor : F → F
  sqrt : F → F
  sin : F → F
  cos : F → F
  atan : F → F
  /-- The angle of the point with the given second and first coordinate. -/
  atan2 : F → F → F
  /-- The length of the vector with the given coordinates. -/
  hypot : F → F → F
  /-- The number as it is written in a document. -/
  text : F → String

variable {F : Type} [Scalar F]

instance decidableLt (a b : F) : Decidable (a < b) := Scalar.decLt a b

instance decidableLe (a b : F) : Decidable (a ≤ b) := Scalar.decLe a b

instance (priority := low) ofNatLiteral {n : Nat} : OfNat F n := ⟨Scalar.ofNat n⟩

instance (priority := low) ofDecimalLiteral : OfScientific F := ⟨Scalar.ofDecimal⟩

namespace Scalar

/-- The value that is no number differs from itself. -/
def isNumber (x : F) : Bool := x == x

/-- The lesser of two numbers, the second of two equal ones; a value that is no
number gives way to the other. -/
def lesser (a b : F) : F :=
  if a < b then a else if isNumber b then b else a

/-- The greater of two numbers, the second of two equal ones; a value that is no
number gives way to the other. -/
def greater (a b : F) : F :=
  if b < a then a else if isNumber b then b else a

/-- The nearest whole number to one that is not negative, a half going up. -/
def roundUp (x : F) : F :=
  if 0.5 ≤ x - floor x then floor x + 1 else floor x

/-- The nearest whole number, a half going away from zero. -/
def round (x : F) : F :=
  if x < 0 then -roundUp (-x) else roundUp x

/-- Half a turn. -/
def pi : F := 3.1415927

/-- An angle in degrees as an angle in radians. -/
def radians (degrees : F) : F := degrees * 0.017453292519943295

/-- Beyond these powers of ten every width in use is exhausted; stopping there
keeps a written exponent from costing more than its digits. -/
def exponentLimit : Int := 400

/-- The number nearest to a literal.  A size with its leading digit beyond
`10 ^ 400` is infinite, and one below `10 ^ -400` is zero. -/
def ofLiteral : Literal → F
  | .notANumber => 0 / 0
  | .infinite negative => if negative then -(1 / 0) else 1 / 0
  | .finite negative size =>
    let lead := size.exponent + (toString size.digits).length
    let value : F :=
      if size.digits = 0 || lead < -exponentLimit then 0
      else if exponentLimit < lead then 1 / 0
      else ofDecimal size.digits (size.exponent < 0) size.exponent.natAbs
    if negative then -value else value

end Scalar

end ForceDiagram
