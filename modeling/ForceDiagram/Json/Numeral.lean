/-
ForceDiagram/Json/Numeral.lean

Reading a number, in two steps: first its parts, then its value.

Design.  Digits are gathered into a significand as long as a word of sixty-four
bits holds it.  Digits that no longer fit raise the exponent when they stand
before the point and are dropped when they stand behind it.  A number without
point and exponent that fits stays whole; every other one is the significand,
rounded to double precision, multiplied or divided by a power of ten, which is
one rounding more than exact reading would take.  A number too large for double
precision is refused at its last digit, or already at the digit where its
exponent leaves a signed word of thirty-two bits.
-/
import ForceDiagram.Json.Text
import ForceDiagram.Json.Value

namespace ForceDiagram

namespace Json

/-- A number by its parts, each a run of digits. -/
structure Numeral where
  negative : Bool
  whole : List Char
  fraction : Option (List Char)
  /-- Whether the exponent is negative, and its digits. -/
  exponent : Option (Bool × List Char)
deriving DecidableEq, Repr

namespace Numeral

/-! ### The parts -/

/-- The digits behind a point, if there is one. -/
def readFraction (text : List Char) : Except Fault (Option (List Char) × Tail text) :=
  match text with
  | '.' :: rest =>
    match rest.takeWhile Char.isDigit with
    | [] => .error (.at (if rest.isEmpty then .endInValue else .invalidNumber) rest)
    | digits =>
      .ok (some digits,
        ⟨rest.dropWhile Char.isDigit, Nat.le_succ_of_le (length_dropWhile_le _ rest)⟩)
  | text => .ok (none, ⟨text, Nat.le_refl _⟩)

/-- The sign and the digits of an exponent, from behind its letter. -/
def readSignedDigits (text : List Char) : Except Fault ((Bool × List Char) × Tail text) :=
  let signed := text.head? = some '-' || text.head? = some '+'
  let digits := if signed then text.drop 1 else text
  have digits_le : digits.length ≤ text.length := by
    simp only [digits]; split <;> simp
  match digits.takeWhile Char.isDigit with
  | [] => .error (.at (if digits.isEmpty then .endInValue else .invalidNumber) digits)
  | run =>
    .ok ((text.head? = some '-', run),
      ⟨digits.dropWhile Char.isDigit, Nat.le_trans (length_dropWhile_le _ digits) digits_le⟩)

/-- The exponent, if there is one. -/
def readExponent (text : List Char) :
    Except Fault (Option (Bool × List Char) × Tail text) :=
  match text with
  | c :: rest =>
    if c = 'e' || c = 'E' then do
      let (exponent, after) ← readSignedDigits rest
      return (some exponent, ⟨after.1, Nat.le_succ_of_le after.2⟩)
    else .ok (none, ⟨c :: rest, Nat.le_refl _⟩)
  | [] => .ok (none, ⟨[], Nat.le_refl _⟩)

/-- Reads the parts of a number.  No digit may follow a leading zero. -/
def read : Reader Numeral := fun text =>
  let negative := text.head? = some '-'
  let unsigned := if negative then text.drop 1 else text
  have unsigned_le : unsigned.length ≤ text.length := by
    simp only [unsigned]; split <;> simp
  match unsigned, unsigned_le with
  | [], _ => .error (.at .endInValue [])
  | c :: rest, le =>
    if !c.isDigit then .error (.at .invalidNumber (c :: rest))
    else if c = '0' && rest.head?.any Char.isDigit then .error (.at .invalidNumber rest)
    else do
      let (fraction, after) ← readFraction (rest.dropWhile Char.isDigit)
      let (exponent, last) ← readExponent after.1
      return {
        value := ⟨negative, c :: rest.takeWhile Char.isDigit, fraction, exponent⟩
        rest := last.1
        shorter := Nat.lt_of_lt_of_le
          (Nat.lt_succ_of_le
            (Nat.le_trans last.2 (Nat.le_trans after.2 (length_dropWhile_le _ rest)))) le }

/-! ### The value -/

/-- A significand stays below this. -/
def significandLimit : Nat := Nat.pow 2 64

/-- A written exponent stays below this. -/
def exponentLimit : Nat := Nat.pow 2 31

def digitValue (c : Char) : Nat := c.toNat - '0'.toNat

/-- Gathers digits as long as the value stays below the limit; returns the value
and the digits left over. -/
def gather (limit : Nat) : Nat → List Char → Nat × List Char
  | value, [] => (value, [])
  | value, c :: rest =>
    if value * 10 + digitValue c < limit then gather limit (value * 10 + digitValue c) rest
    else (value, c :: rest)

/-- Ten to the given power, rounded to double precision. -/
def powerOfTen (n : Nat) : Float := Float.ofScientific 1 false n

/-- The greatest power of ten in double precision has this exponent. -/
def greatestPower : Nat := 308

/-- Divides by a power of ten, in as many steps as the reach of double precision
makes necessary. -/
def divided (x : Float) (n : Nat) : Float :=
  if n ≤ greatestPower then x / powerOfTen n
  else if x == 0 then x
  else divided (x / powerOfTen greatestPower) (n - greatestPower)
termination_by n
decreasing_by simp only [greatestPower] at *; omega

/-- The size `significand * 10 ^ exponent`, unless it is too large. -/
def size? (significand : Nat) (exponent : Int) : Option Float :=
  let x := (UInt64.ofNat significand).toFloat
  if exponent < 0 then some (divided x exponent.natAbs)
  else if exponent.natAbs ≤ greatestPower then
    let y := x * powerOfTen exponent.natAbs
    if y.isInf then none else some y
  else if x == 0 then some x
  else none

/-- The value of a number, or how many of its digits lie behind the one that
makes it too large. -/
def value (n : Numeral) : Except Nat Number :=
  let (significand, excess) := gather significandLimit 0 n.whole
  let fraction := n.fraction.getD []
  let (significand, dropped) := gather significandLimit significand fraction
  let exponent : Int := excess.length - (fraction.length - dropped.length : Nat)
  let signed (size : Float) : Number := .real (if n.negative then -size else size)
  let sized (exponent : Int) : Except Nat Number :=
    match size? significand exponent with
    | some size => .ok (signed size)
    | none => .error 0
  match n.exponent with
  | some (lowers, digits) =>
    match gather exponentLimit 0 digits with
    | (written, []) => sized (if lowers then exponent - written else exponent + written)
    | (_, _ :: behind) =>
      if significand ≠ 0 && !lowers then .error behind.length else .ok (signed 0)
  | none =>
    if n.fraction.isSome || !excess.isEmpty then sized exponent
    else if !n.negative then .ok (.whole significand)
    else if 0 < significand && significand ≤ Nat.pow 2 63 then .ok (.whole (-significand))
    else .ok (signed (UInt64.ofNat significand).toFloat)

end Numeral

/-- Reads a number. -/
def takeNumber : Reader Number := fun text => do
  let taken ← Numeral.read text
  match taken.value.value with
  | .ok n => return { taken with value := n }
  | .error behind => .error ⟨.numberOutOfRange, byteCount taken.rest + behind⟩

end Json

end ForceDiagram
