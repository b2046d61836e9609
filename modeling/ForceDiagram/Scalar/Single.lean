/-
ForceDiagram/Scalar/Single.lean

Single-precision numbers as the numbers of a diagram.

Sum, difference, product, quotient and square root are the correctly rounded
ones.  Rounding down works on the bits, where it is exact: the fraction bits of
a number below 2^23 are cut off, and a negative number first grows by all of
them.  The length of a vector is computed in double precision and rounded once,
which for finite coordinates cannot overflow on the way.
-/
import ForceDiagram.Decimal.Binary
import ForceDiagram.Decimal.Layout
import ForceDiagram.Scalar.Basic

namespace ForceDiagram

namespace Single

/-- The greatest whole number not above `x`.  From `2 ^ 23` on every number is
whole; below one in size only the sign decides. -/
def floor (x : Float32) : Float32 :=
  let bits := x.toBits
  let biased := (bits >>> 23) &&& 0xff
  let negative := bits >>> 31 = 1
  if 150 ≤ biased then x
  else if biased < 127 then
    if x == 0 then x else if negative then -1 else 0
  else
    let fraction := (0x7fffff : UInt32) >>> (biased - 127)
    if bits &&& fraction = 0 then x
    else if negative then .ofBits ((bits + fraction) &&& ~~~fraction)
    else .ofBits (bits &&& ~~~fraction)

/-- The length of a vector.  An infinite side makes it infinite, whatever the
other side is. -/
def hypot (x y : Float32) : Float32 :=
  if x.isInf || y.isInf then 1 / 0
  else (x.toFloat * x.toFloat + y.toFloat * y.toFloat).sqrt.toFloat32

/-- The shortest digits that read back as the same number, without an exponent. -/
def text (x : Float32) : String :=
  match BinaryNumber.ofBits .single x.toBits.toNat with
  | .notANumber => "NaN"
  | .infinite negative => if negative then "-inf" else "inf"
  | .finite negative significand exponent narrow =>
    let size := (BinaryNumber.decimal .away significand exponent narrow).plain
    if negative then "-" ++ size else size

end Single

instance : Scalar Float32 where
  decLt := inferInstance
  decLe := inferInstance
  ofNat := Float32.ofNat
  ofDecimal := Float32.ofScientific
  isFinite := Float32.isFinite
  floor := Single.floor
  sqrt := Float32.sqrt
  sin := Float32.sin
  cos := Float32.cos
  atan := Float32.atan
  atan2 := Float32.atan2
  hypot := Single.hypot
  text := Single.text

end ForceDiagram
