/-
ForceDiagram/Text/Utf8.lean

Reading bytes as UTF-8.

Design.  Bytes are cut into pieces: a piece is either one encoded character or
a fault, which is the longest run that begins like a character and then breaks
off.  A lead byte decides which bytes may follow it, so that over-long forms,
surrogates and codes past the last one are faults from their second byte on.
Both readings come from the same pieces: the strict one accepts a text whose
pieces are all characters, the forgiving one puts the replacement character in
place of each fault.  So they agree wherever the strict one accepts.
-/
namespace ForceDiagram

namespace Utf8

/-- What a lead byte announces: the bits it carries itself, and the ranges of
the bytes that have to follow. -/
def lead? (b : UInt8) : Option (Nat × List (UInt8 × UInt8)) :=
  let any : UInt8 × UInt8 := (0x80, 0xbf)
  if b < 0x80 then some (b.toNat, [])
  else if b < 0xc2 then none
  else if b < 0xe0 then some (b.toNat % 0x20, [any])
  else if b = 0xe0 then some (0, [(0xa0, 0xbf), any])
  else if b = 0xed then some (0xd, [(0x80, 0x9f), any])
  else if b < 0xf0 then some (b.toNat % 0x10, [any, any])
  else if b = 0xf0 then some (0, [(0x90, 0xbf), any, any])
  else if b < 0xf4 then some (b.toNat % 0x08, [any, any, any])
  else if b = 0xf4 then some (4, [(0x80, 0x8f), any, any])
  else none

/-- Takes the bytes that have to follow, six bits each, as long as they come.
The code is missing if one does not; the bytes before it are taken all the same. -/
def follow : List (UInt8 × UInt8) → Nat → List UInt8 → Option Nat × List UInt8
  | [], code, bytes => (some code, bytes)
  | _ :: _, _, [] => (none, [])
  | (low, high) :: ranges, code, b :: bytes =>
    if low ≤ b && b ≤ high then follow ranges (code * 64 + b.toNat % 64) bytes
    else (none, b :: bytes)

/-- The first piece of a text with first byte `b`, and the bytes after it. -/
def piece (b : UInt8) (bytes : List UInt8) : Option Char × List UInt8 :=
  match lead? b with
  | none => (none, bytes)
  | some (bits, ranges) =>
    let (code, rest) := follow ranges bits bytes
    (code.map Char.ofNat, rest)

theorem follow_length_le (ranges : List (UInt8 × UInt8)) (code : Nat) (bytes : List UInt8) :
    (follow ranges code bytes).2.length ≤ bytes.length := by
  induction ranges generalizing code bytes with
  | nil => simp [follow]
  | cons r ranges ih =>
    cases bytes with
    | nil => simp [follow]
    | cons b bytes =>
      simp only [follow]
      split
      · exact Nat.le_succ_of_le (ih _ bytes)
      · simp

theorem piece_length_le (b : UInt8) (bytes : List UInt8) :
    (piece b bytes).2.length ≤ bytes.length := by
  unfold piece
  split
  · exact Nat.le_refl _
  · exact follow_length_le _ _ bytes

/-- All pieces of a text; a fault is `none`. -/
def pieces : List UInt8 → List (Option Char)
  | [] => []
  | b :: bytes => (piece b bytes).1 :: pieces (piece b bytes).2
termination_by bytes => bytes.length
decreasing_by exact Nat.lt_succ_of_le (piece_length_le b bytes)

/-- The strict reading. -/
def decode? (bytes : List UInt8) : Option String :=
  ((pieces bytes).mapM id).map String.ofList

/-- The forgiving reading. -/
def decodeLossy (bytes : List UInt8) : String :=
  String.ofList ((pieces bytes).map (·.getD '\ufffd'))

end Utf8

end ForceDiagram
