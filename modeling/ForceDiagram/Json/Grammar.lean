/-
ForceDiagram/Json/Grammar.lean

The texts that stand for a value, whoever reads them.

Design.  There is no reader here: every definition says of a text that it is one way of
writing something.  A character of a string may be written as itself, by a short escape
or by the hexadecimal digits of its code; blanks may stand between any two tokens; and
what a value inside an array or an object may look like is a parameter, so that texts of
bounded nesting are defined by recursion on the bound.  Which numbers there are is not
said here either: a number is written by its parts, and any parts will do that have a
value in double precision.
-/
import ForceDiagram.Json.Numeral
import ForceDiagram.Json.Text

namespace ForceDiagram

namespace Json

/-- A text of blanks. -/
def Blanks (text : List Char) : Prop := ∀ c ∈ text, isBlank c = true

theorem blanks_nil : Blanks [] := fun _ hc => absurd hc List.not_mem_nil

/-- A text with blanks around it. -/
def Padded (writes : List Char → Prop) (text : List Char) : Prop :=
  ∃ before inside after, Blanks before ∧ writes inside ∧ Blanks after ∧
    text = before ++ inside ++ after

/-! ### Strings -/

/-- The characters with a short escape, behind the letters of these. -/
def shortEscapes : List (Char × Char) :=
  [('"', '"'), ('\\', '\\'), ('/', '/'), ('b', '\x08'), ('f', '\x0c'), ('n', '\n'),
    ('r', '\r'), ('t', '\t')]

/-- A hexadecimal digit by its value. -/
def IsHexDigit (value : Nat) (c : Char) : Prop :=
  "0123456789abcdef".toList[value]? = some c ∨ "0123456789ABCDEF".toList[value]? = some c

/-- Four hexadecimal digits by their value. -/
inductive WritesCode : Nat → List Char → Prop where
  | mk {a b c d : Nat} {w x y z : Char} (ha : IsHexDigit a w) (hb : IsHexDigit b x)
    (hc : IsHexDigit c y) (hd : IsHexDigit d z) :
    WritesCode (((a * 16 + b) * 16 + c) * 16 + d) [w, x, y, z]

/-- The ways of writing a character in a string. -/
inductive WritesChar (c : Char) : List Char → Prop where
  | literal (hquote : c ≠ '"') (hescape : c ≠ '\\') (hcontrol : 0x20 ≤ c.toNat) :
    WritesChar c [c]
  | short {letter : Char} (h : (letter, c) ∈ shortEscapes) : WritesChar c ['\\', letter]
  | code {digits : List Char} (h : WritesCode c.toNat digits) :
    WritesChar c ('\\' :: 'u' :: digits)
  /-- A character beyond sixteen bits as a pair of surrogates, ten bits in each. -/
  | pair {leading trailing : List Char} (hbeyond : 0x10000 ≤ c.toNat)
    (hleading : WritesCode (0xd800 + (c.toNat - 0x10000) / 0x400) leading)
    (htrailing : WritesCode (0xdc00 + (c.toNat - 0x10000) % 0x400) trailing) :
    WritesChar c ('\\' :: 'u' :: leading ++ '\\' :: 'u' :: trailing)

/-- The characters of a string, one after the other. -/
inductive WritesChars : List Char → List Char → Prop where
  | nil : WritesChars [] []
  | cons {c : Char} {cs written rest : List Char} (hc : WritesChar c written)
    (hcs : WritesChars cs rest) : WritesChars (c :: cs) (written ++ rest)

/-- A string between quotes. -/
inductive WritesString (s : String) : List Char → Prop where
  | mk {written : List Char} (h : WritesChars s.toList written) :
    WritesString s ('"' :: written ++ ['"'])

/-! ### Numbers -/

/-- A run of digits. -/
structure Digits (text : List Char) : Prop where
  nonempty : text ≠ []
  digits : ∀ c ∈ text, c.isDigit = true

inductive WritesFraction : Option (List Char) → List Char → Prop where
  | absent : WritesFraction none []
  | present {digits : List Char} (h : Digits digits) :
    WritesFraction (some digits) ('.' :: digits)

inductive WritesSign : Bool → List Char → Prop where
  | absent : WritesSign false []
  | plus : WritesSign false ['+']
  | minus : WritesSign true ['-']

inductive WritesExponent : Option (Bool × List Char) → List Char → Prop where
  | absent : WritesExponent none []
  | present {mark : Char} {lowers : Bool} {sign digits : List Char}
    (hmark : mark = 'e' ∨ mark = 'E') (hsign : WritesSign lowers sign) (h : Digits digits) :
    WritesExponent (some (lowers, digits)) (mark :: sign ++ digits)

/-- A number by its parts.  No digit follows a leading zero. -/
structure WritesNumeral (n : Numeral) (text : List Char) : Prop where
  whole : Digits n.whole
  leading : n.whole.head? = some '0' → n.whole = ['0']
  parts : ∃ fraction exponent, WritesFraction n.fraction fraction ∧
    WritesExponent n.exponent exponent ∧
    text = (if n.negative then ['-'] else []) ++ n.whole ++ fraction ++ exponent

/-! ### Values -/

/-- Values without others inside them. -/
inductive WritesFlat : Json → List Char → Prop where
  | null : WritesFlat .null "null".toList
  | false : WritesFlat (.bool .false) "false".toList
  | true : WritesFlat (.bool .true) "true".toList
  | number {n : Numeral} {x : Number} {text : List Char} (h : WritesNumeral n text)
    (hx : n.value = .ok x) : WritesFlat (.number x) text
  | string {s : String} {text : List Char} (h : WritesString s text) :
    WritesFlat (.string s) text

/-- One item or more, with commas between them and blanks around each. -/
inductive WritesList {α : Type} (writes : α → List Char → Prop) : List α → List Char → Prop where
  | last {a : α} {text : List Char} (h : Padded (writes a) text) : WritesList writes [a] text
  | cons {a : α} {as : List α} {text rest : List Char} (h : Padded (writes a) text)
    (has : WritesList writes as rest) : WritesList writes (a :: as) (text ++ ',' :: rest)

/-- A member of an object, with blanks around the colon. -/
inductive WritesMember (writes : Json → List Char → Prop) (m : String × Json) :
    List Char → Prop where
  | mk {name before after value : List Char} (hname : WritesString m.1 name)
    (hbefore : Blanks before) (hafter : Blanks after) (hvalue : writes m.2 value) :
    WritesMember writes m (name ++ before ++ ':' :: after ++ value)

/-- Arrays and objects, with a way of writing the values inside them. -/
inductive WritesNested (writes : Json → List Char → Prop) : Json → List Char → Prop where
  | emptyArray {blanks : List Char} (h : Blanks blanks) :
    WritesNested writes (.array []) ('[' :: blanks ++ [']'])
  | array {es : List Json} {text : List Char} (h : WritesList writes es text) :
    WritesNested writes (.array es) ('[' :: text ++ [']'])
  | emptyObject {blanks : List Char} (h : Blanks blanks) :
    WritesNested writes (.object []) ('\x7b' :: blanks ++ ['\x7d'])
  | object {ms : List (String × Json)} {text : List Char}
    (h : WritesList (WritesMember writes) ms text) :
    WritesNested writes (.object ms) ('\x7b' :: text ++ ['\x7d'])

/-- Values in which arrays and objects are nested at most `depth` deep. -/
def Writes : (depth : Nat) → Json → List Char → Prop
  | 0, json, text => WritesFlat json text
  | depth + 1, json, text => WritesFlat json text ∨ WritesNested (Writes depth) json text

end Json

end ForceDiagram
