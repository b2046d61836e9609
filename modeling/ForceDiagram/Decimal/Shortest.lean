/-
ForceDiagram/Decimal/Shortest.lean

The fewest decimal digits that still name one binary number.

Design.  A reader that rounds to nearest maps a whole interval of reals to one
binary number.  A `Neighbourhood` is such an interval, with the number itself
inside it, all over one denominator, so that every test below is a comparison
of natural numbers.  The search walks down the decimal grids 10^k, coarsest
first, and stops at the first grid one of whose points lies in the interval.
Only the two points next to the number have to be tried on a grid: if any point
of the grid lies in the interval, so does one of these two.  Of two hits the
nearer wins, and a tie goes as the caller's `Tie` says.
-/
namespace ForceDiagram

/-- The number `digits * 10 ^ exponent`. -/
structure Decimal where
  digits : Nat
  exponent : Int
deriving DecidableEq, Repr

/-- What becomes of a number exactly half way between two grid points. -/
inductive Tie where
  | away
  | toEven
deriving DecidableEq, Repr

/-- The number `middle / scale` and the reals that round to it: those between
`low / scale` and `high / scale`, the ends included when `closed`. -/
structure Neighbourhood where
  low : Nat
  middle : Nat
  high : Nat
  scale : Nat
  closed : Bool
deriving DecidableEq, Repr

namespace Neighbourhood

/-- The same interval, measured in units of `10 ^ k`. -/
def inUnits (n : Neighbourhood) (k : Int) : Neighbourhood :=
  let up := Nat.pow 10 (-k).toNat
  { n with
    low := n.low * up
    middle := n.middle * up
    high := n.high * up
    scale := n.scale * Nat.pow 10 k.toNat }

/-- Whether the whole number `c` lies in the interval. -/
def holds (n : Neighbourhood) (c : Nat) : Bool :=
  if n.closed then n.low ≤ c * n.scale && c * n.scale ≤ n.high
  else n.low < c * n.scale && c * n.scale < n.high

/-- The whole number in the interval that is nearest to the middle, if the
interval holds one. -/
def nearest? (n : Neighbourhood) (tie : Tie) : Option Nat :=
  let below := n.middle / n.scale
  let rest := n.middle % n.scale
  match n.holds below, n.holds (below + 1) with
  | false, false => none
  | true, false => some below
  | false, true => some (below + 1)
  | true, true =>
    if 2 * rest < n.scale then some below
    else if n.scale < 2 * rest then some (below + 1)
    else match tie with
      | .away => some (below + 1)
      | .toEven => some (if below % 2 = 0 then below else below + 1)

/-- Walks down the grids from `10 ^ k`, at most `grids` of them. -/
def search (n : Neighbourhood) (tie : Tie) : Nat → Int → Decimal
  | 0, k => ⟨(n.inUnits k).middle / (n.inUnits k).scale, k⟩
  | grids + 1, k =>
    match (n.inUnits k).nearest? tie with
    | some c => ⟨c, k⟩
    | none => n.search tie grids (k - 1)

end Neighbourhood

/-- What a binary significand `m` and exponent `e`, denoting `m * 2 ^ e`, stand
for.  `narrow` says that the numbers below are spaced at half the distance, as
they are just above a power of two. -/
def Neighbourhood.ofBinary (m : Nat) (e : Int) (narrow : Bool) : Neighbourhood :=
  let up := Nat.pow 2 e.toNat
  { low := (if narrow then 4 * m - 1 else 4 * m - 2) * up
    middle := 4 * m * up
    high := (4 * m + 2) * up
    scale := 4 * Nat.pow 2 (-e).toNat
    closed := m % 2 = 0 }

/-- The shortest decimal that reads back as `m * 2 ^ e`.

`10 ^ (0.30103 * b)` is just above `2 ^ b`, so the walk starts no lower than the
first power of ten above the number.  Seventeen digits always suffice for the
significands of fifty-three bits this is used with. -/
def Decimal.shortest (tie : Tie) (m : Nat) (e : Int) (narrow : Bool) : Decimal :=
  let bits : Int := Nat.log2 m + e + 1
  (Neighbourhood.ofBinary m e narrow).search tie 21 (bits * 30103 / 100000 + 2)

end ForceDiagram
