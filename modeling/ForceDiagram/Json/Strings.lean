/-
ForceDiagram/Json/Strings.lean

Reading a string: characters up to the closing quote, each written as itself,
by a short escape, or by the hexadecimal digits of its code.  A code beyond
sixteen bits is written as a pair of surrogates, and a surrogate that is not
part of a pair is refused.
-/
import ForceDiagram.Json.Text

namespace ForceDiagram

namespace Json

/-- The characters with a short escape. -/
def shortEscape? : Char → Option Char
  | '"' => some '"'
  | '\\' => some '\\'
  | '/' => some '/'
  | 'b' => some '\x08'
  | 'f' => some '\x0c'
  | 'n' => some '\n'
  | 'r' => some '\r'
  | 't' => some '\t'
  | _ => none

/-- The value of a hexadecimal digit. -/
def hexValue? (c : Char) : Option Nat :=
  if c.isDigit then some (c.toNat - '0'.toNat)
  else if 'a' ≤ c && c ≤ 'f' then some (c.toNat - 'a'.toNat + 10)
  else if 'A' ≤ c && c ≤ 'F' then some (c.toNat - 'A'.toNat + 10)
  else none

/-- Reads four hexadecimal digits.  The next four bytes are looked at together,
whatever they are. -/
def hexCode : Reader Nat := fun text =>
  if byteCount text < 4 then .error (.before .endInString [])
  else
    match text with
    | a :: b :: c :: d :: rest =>
      match [a, b, c, d].mapM hexValue? with
      | some digits =>
        .ok ⟨digits.foldl (fun code digit => code * 16 + digit) 0, rest,
          by simp only [List.length_cons]; omega⟩
      | none => .error (.within .invalidEscape (a :: b :: c :: d :: rest) 4)
    | text => .error (.within .invalidEscape text 4)

/-- The codes that come first in a pair. -/
def isLeading (code : Nat) : Bool := 0xd800 ≤ code && code < 0xdc00

/-- The codes that come second in a pair. -/
def isTrailing (code : Nat) : Bool := 0xdc00 ≤ code && code < 0xe000

/-- The character that a pair of surrogates stands for. -/
def ofPair (leading trailing : Nat) : Char :=
  .ofNat (0x10000 + (leading - 0xd800) * 0x400 + (trailing - 0xdc00))

/-- Reads the second surrogate of a pair, with the escape it is written in. -/
def trailingCode : Reader Nat := fun text =>
  match text with
  | [] => .error (.at .endInString [])
  | '\\' :: [] => .error (.at .endInString [])
  | '\\' :: 'u' :: rest => do
    let code ← hexCode rest
    if isTrailing code.value then
      return ⟨code.value, code.rest, Nat.lt_of_lt_of_le code.shorter
        (by simp only [List.length_cons]; omega)⟩
    else .error (.before .loneSurrogate code.rest)
  | '\\' :: rest => .error (.at .endOfSurrogatePair rest)
  | text => .error (.at .endOfSurrogatePair text)

/-- Reads the character that a backslash introduces, from behind the backslash. -/
def escape : Reader Char := fun text =>
  match text with
  | [] => .error (.at .endInString [])
  | 'u' :: rest => do
    let code ← hexCode rest
    have shorter : code.rest.length < ('u' :: rest).length :=
      Nat.lt_succ_of_lt code.shorter
    if isTrailing code.value then .error (.before .loneSurrogate code.rest)
    else if isLeading code.value then do
      let second ← trailingCode code.rest
      return ⟨ofPair code.value second.value, second.rest,
        Nat.lt_trans second.shorter shorter⟩
    else return ⟨.ofNat code.value, code.rest, shorter⟩
  | c :: rest =>
    match shortEscape? c with
    | some character => .ok ⟨character, rest, Nat.lt_succ_self _⟩
    | none => .error (.at .invalidEscape (c :: rest))

/-- Reads characters up to the closing quote, onto those already read, the last
one first. -/
def characters (read : List Char) (text : List Char) : Except Fault (String × List Char) :=
  match text with
  | [] => .error (.at .endInString [])
  | c :: rest =>
    if c = '"' then .ok (String.ofList read.reverse, rest)
    else if c = '\\' then
      match escape rest with
      | .error fault => .error fault
      | .ok taken => characters (taken.value :: read) taken.rest
    else if c.toNat < 0x20 then .error (.at .controlCharacter (c :: rest))
    else characters (c :: read) rest
termination_by text.length
decreasing_by
  · exact Nat.lt_succ_of_lt taken.shorter
  · exact Nat.lt_succ_self _

theorem characters_shorter {read text : List Char} {s : String} {rest : List Char}
    (h : characters read text = .ok (s, rest)) : rest.length < text.length := by
  fun_induction characters read text with
  | case1 => simp at h
  | case2 read rest' =>
    simp only [Except.ok.injEq, Prod.mk.injEq] at h
    simp [h.2]
  | case3 => simp at h
  | case4 read rest' taken _ _ ih =>
    exact Nat.lt_succ_of_lt (Nat.lt_trans (ih h) taken.shorter)
  | case5 => simp at h
  | case6 read c rest' _ _ _ ih => exact Nat.lt_succ_of_lt (ih h)

/-- Reads a string, from behind its opening quote. -/
def takeString : Reader String := fun text =>
  match h : characters [] text with
  | .error fault => .error fault
  | .ok (s, rest) => .ok ⟨s, rest, characters_shorter h⟩

end Json

end ForceDiagram
