/-
ForceDiagram/Decimal/Binary.lean

The bits of a binary floating-point number, taken apart: sign, significand and
exponent, or one of the values that are no finite number.  One definition
serves both widths this library meets.
-/
import ForceDiagram.Decimal.Shortest

namespace ForceDiagram

/-- A width of binary floating-point number: how many bits its fraction and its
exponent have. -/
structure BinaryFormat where
  fractionBits : Nat
  exponentBits : Nat

namespace BinaryFormat

def single : BinaryFormat := ⟨23, 8⟩

def double : BinaryFormat := ⟨52, 11⟩

end BinaryFormat

/-- A floating-point number by its parts.  A finite one is
`significand * 2 ^ exponent`, and `narrow` marks the ones whose lower neighbour
is half as far away as the upper one. -/
inductive BinaryNumber where
  | notANumber
  | infinite (negative : Bool)
  | finite (negative : Bool) (significand : Nat) (exponent : Int) (narrow : Bool)
deriving DecidableEq, Repr

namespace BinaryNumber

/-- Takes the bits of a number of the given width apart. -/
def ofBits (format : BinaryFormat) (bits : Nat) : BinaryNumber :=
  let fractions := Nat.pow 2 format.fractionBits
  let exponents := Nat.pow 2 format.exponentBits
  let fraction := bits % fractions
  let biased := bits / fractions % exponents
  let negative := bits / fractions / exponents % 2 = 1
  let least : Int := 2 - (exponents / 2 : Nat) - format.fractionBits
  if biased = exponents - 1 then
    if fraction = 0 then .infinite negative else .notANumber
  else if biased = 0 then .finite negative fraction least false
  else
    .finite negative (fractions + fraction) (least + biased - 1)
      (fraction = 0 && 1 < biased)

/-- The shortest digits of a finite number's size; zero has the digit 0. -/
def decimal (tie : Tie) (significand : Nat) (exponent : Int) (narrow : Bool) : Decimal :=
  if significand = 0 then ⟨0, 0⟩ else .shortest tie significand exponent narrow

end BinaryNumber

end ForceDiagram
