/-
ForceDiagram/Command/Arguments.lean

The words of a command line.

Design.  Words are read from left to right, and the first one that is wrong ends
the reading.  A setting can have its value in the same word, after an equals
sign, or in the next word.  In the second case the value is not looked at until
something shows that it is complete: the next setting, a request for help, or
the end.  A word that nobody knows is refused before that, so it is what gets
reported even if the value before it is wrong.

There are no words without a setting.  After a lone `--` nothing is a setting,
and so nothing is accepted.
-/
import ForceDiagram.Diagram.Config

namespace ForceDiagram

variable {F : Type} [Scalar F]

namespace Command

/-- What the program is told. -/
structure Arguments (F : Type) where
  data : String
  /-- Where to write a drawing instead of opening a window. -/
  exportSvg : Option String
  width : F
  height : F
  /-- At most this many steps are taken before a drawing is written. -/
  maxSteps : Nat
  linkDistance : Option F
  chargeStrength : Option F

/-- What the program does if it is told nothing. -/
def Arguments.standard : Arguments F where
  data := "traces.json"
  exportSvg := none
  width := 1200
  height := 800
  maxSteps := 600
  linkDistance := none
  chargeStrength := none

/-- The numbers that shape the layout. -/
def Arguments.config (a : Arguments F) : Config F :=
  { Config.standard with
    linkDistance := a.linkDistance.getD Config.standard.linkDistance
    chargeStrength := a.chargeStrength.getD Config.standard.chargeStrength }

def Arguments.viewport (a : Arguments F) : Viewport F := ⟨a.width, a.height⟩

inductive Setting where
  | data
  | exportSvg
  | width
  | height
  | maxSteps
  | linkDistance
  | chargeStrength
deriving DecidableEq, Repr

namespace Setting

def all : List Setting :=
  [.data, .exportSvg, .width, .height, .maxSteps, .linkDistance, .chargeStrength]

/-- The name of a setting, which follows two dashes. -/
def name : Setting → String
  | .data => "data"
  | .exportSvg => "export-svg"
  | .width => "width"
  | .height => "height"
  | .maxSteps => "max-steps"
  | .linkDistance => "link-distance"
  | .chargeStrength => "charge-strength"

def ofName? (name : String) : Option Setting := all.find? fun s => s.name == name

/-- Whether a word that begins with a dash can be the value, if it is a number. -/
def takesNegative (s : Setting) : Bool := s == .chargeStrength

end Setting

/-- What ends the reading of words. -/
inductive Interruption where
  | helpAsked
  | versionAsked
  | unknownWord (word : String)
  /-- A request for help or the version has a value. -/
  | surplusValue (word : String)
  | missingValue (setting : Setting)
  | emptyPath (setting : Setting)
  | badNumber (setting : Setting) (value : String)
  | repeated (setting : Setting)
deriving DecidableEq, Repr

/-! ### Values -/

/-- A value that has to be a path. -/
def pathOf (s : Setting) (value : String) : Except Interruption String :=
  if value.isEmpty then .error (.emptyPath s) else .ok value

/-- A value that has to be a number. -/
def numberOf (s : Setting) (value : String) : Except Interruption F :=
  match Literal.read? value with
  | some literal => .ok (Scalar.ofLiteral literal)
  | none => .error (.badNumber s value)

/-- The greatest number of steps that can be asked for. -/
def stepLimit : Nat := Nat.pow 2 64 - 1

/-- A value that has to be a number of steps. -/
def stepsOf (s : Setting) (value : String) : Except Interruption Nat :=
  match readCount? stepLimit value with
  | some steps => .ok steps
  | none => .error (.badNumber s value)

/-- The arguments with one setting given. -/
def Arguments.set (a : Arguments F) (s : Setting) (value : String) :
    Except Interruption (Arguments F) :=
  match s with
  | .data => (pathOf s value).map fun path => { a with data := path }
  | .exportSvg => (pathOf s value).map fun path => { a with exportSvg := some path }
  | .width => (numberOf s value).map fun x => { a with width := x }
  | .height => (numberOf s value).map fun x => { a with height := x }
  | .maxSteps => (stepsOf s value).map fun steps => { a with maxSteps := steps }
  | .linkDistance => (numberOf s value).map fun x => { a with linkDistance := some x }
  | .chargeStrength => (numberOf s value).map fun x => { a with chargeStrength := some x }

/-! ### Words -/

/-- A word by its dashes. -/
inductive Word where
  /-- Two dashes alone. -/
  | separator
  /-- Two dashes and a name, with what follows an equals sign. -/
  | long (name : String) (value : Option String)
  /-- One dash and letters. -/
  | short (letters : List Char)
  | plain
deriving DecidableEq, Repr

def Word.ofString (word : String) : Word :=
  match word.toList with
  | ['-', '-'] => .separator
  | '-' :: '-' :: rest =>
    let name := String.ofList (rest.takeWhile (· ≠ '='))
    match rest.dropWhile (· ≠ '=') with
    | [] => .long name none
    | _ :: value => .long name (some (String.ofList value))
  | '-' :: c :: rest => .short (c :: rest)
  | _ => .plain

/-- Whether letters after a dash look like a number: digits, with one point at
most, which is neither first nor in the exponent, and one `e` at most, which is
neither first nor last. -/
def looksNumeric (letters : List Char) : Bool :=
  let isMark (c : Char) : Bool := c = 'e' || c = 'E'
  let mantissa := letters.takeWhile (!isMark ·)
  let exponent := letters.dropWhile (!isMark ·)
  let whole := mantissa.takeWhile Char.isDigit
  let fraction := mantissa.dropWhile Char.isDigit
  !whole.isEmpty &&
    (fraction.isEmpty || fraction.head? == some '.' && fraction.tail.all Char.isDigit) &&
    (exponent.isEmpty || !exponent.tail.isEmpty && exponent.tail.all Char.isDigit)

/-! ### Reading -/

/-- How far the words have been read. -/
structure Reading (F : Type) where
  arguments : Arguments F
  /-- The settings whose values have been accepted. -/
  given : List Setting
  /-- The last setting, as long as its value has not been looked at. -/
  waiting : Option (Setting × Option String)
  /-- Whether a lone `--` has been read. -/
  ended : Bool

namespace Reading

def initial : Reading F := ⟨.standard, [], none, false⟩

/-- Accepts a value.  No setting may be given twice. -/
def accept (r : Reading F) (s : Setting) (value : String) : Except Interruption (Reading F) :=
  if r.given.contains s then .error (.repeated s)
  else (r.arguments.set s value).map fun a => { r with arguments := a, given := s :: r.given }

/-- Looks at the value of the last setting. -/
def settle (r : Reading F) : Except Interruption (Reading F) :=
  match r.waiting with
  | none => .ok r
  | some (s, none) => .error (.missingValue s)
  | some (s, some value) => { r with waiting := none }.accept s value

/-- A request that ends the reading, if all before it was right. -/
def interrupt (r : Reading F) (reason : Interruption) : Except Interruption (Reading F) := do
  let _ ← r.settle
  throw reason

/-- A word that begins with two dashes. -/
def long (r : Reading F) (word name : String) (value : Option String) :
    Except Interruption (Reading F) :=
  if name = "help" then
    if value.isSome then .error (.surplusValue word) else r.interrupt .helpAsked
  else if name = "version" then
    if value.isSome then .error (.surplusValue word) else r.interrupt .versionAsked
  else
    match Setting.ofName? name with
    | none => .error (.unknownWord word)
    | some s => do
      let r ← r.settle
      match value with
      | some value => r.accept s value
      | none => return { r with waiting := some (s, none) }

/-- A word that may only be the value of the setting before it. -/
def value (r : Reading F) (word : String) : Except Interruption (Reading F) :=
  match r.waiting with
  | some (s, none) => .ok { r with waiting := some (s, some word) }
  | _ => .error (.unknownWord word)

/-- Whether the value of a setting is missing that a dash may begin. -/
def awaitsNegative (r : Reading F) : Bool :=
  match r.waiting with
  | some (s, none) => s.takesNegative
  | _ => false

/-- A word that begins with one dash.  Only its first letter is looked at. -/
def short (r : Reading F) (word : String) (letters : List Char) :
    Except Interruption (Reading F) :=
  if r.awaitsNegative && looksNumeric letters then r.value word
  else
    match letters.head? with
    | some 'h' => r.interrupt .helpAsked
    | some 'V' => r.interrupt .versionAsked
    | _ => .error (.unknownWord word)

/-- Reads one word. -/
def word (r : Reading F) (word : String) : Except Interruption (Reading F) :=
  if r.ended then .error (.unknownWord word)
  else
    match Word.ofString word with
    | .separator => .ok { r with ended := true }
    | .long name value => r.long word name value
    | .short letters => r.short word letters
    | .plain => r.value word

end Reading

/-- Reads the words of a command line. -/
def Arguments.ofWords (words : List String) : Except Interruption (Arguments F) := do
  let r ← words.foldlM Reading.word .initial
  return (← r.settle).arguments

end Command

end ForceDiagram
