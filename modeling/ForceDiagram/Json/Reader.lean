/-
ForceDiagram/Json/Reader.lean

Reading a value from a text.

Design.  A value is read with an allowance of nesting.  Entering an array or an
object takes one off the allowance, and what stands inside is read with the
smaller one, so the reader recurses on the allowance alone; the entries of one
array or object are a loop over the text, which every entry shortens.
-/
import ForceDiagram.Json.Numeral
import ForceDiagram.Json.Strings

namespace ForceDiagram

namespace Json

/-- Reads the letters of a word, each of which has to be the expected one. -/
def letters : List Char → List Char → Except Fault (List Char)
  | [], text => .ok text
  | _ :: _, [] => .error (.at .endInValue [])
  | letter :: word, c :: text =>
    if c = letter then letters word text else .error (.at .expectedWord (c :: text))

theorem letters_length_le {word text rest : List Char} (h : letters word text = .ok rest) :
    rest.length ≤ text.length := by
  induction word generalizing text with
  | nil =>
    simp only [letters, Except.ok.injEq] at h
    simp [h]
  | cons letter word ih =>
    cases text with
    | nil => simp [letters] at h
    | cons c text =>
      simp only [letters] at h
      split at h
      · exact Nat.le_succ_of_le (ih h)
      · simp at h

/-- Reads the rest of a word that stands for a value. -/
def word (letter : Char) (rest : String) (meaning : Json) (text : List Char) :
    Except Fault (Taken Json (letter :: text)) :=
  match h : letters rest.toList text with
  | .error fault => .error fault
  | .ok after => .ok ⟨meaning, after, Nat.lt_succ_of_le (letters_length_le h)⟩

/-! ### Arrays and objects -/

/-- Reads the entries of an array up to its closing bracket, onto those already
read, the last one first. -/
def entries (value : Reader Json) (read : List Json) (text : List Char) :
    Except Fault (List Json × List Char) :=
  match value text with
  | .error fault => .error fault
  | .ok taken =>
    match _h : skipBlanks taken.rest with
    | [] => .error (.at .endInList [])
    | c :: rest =>
      if c = ']' then .ok ((taken.value :: read).reverse, rest)
      else if c = ',' then
        if (skipBlanks rest).head? = some ']' then .error (.at .trailingComma (skipBlanks rest))
        else entries value (taken.value :: read) (skipBlanks rest)
      else .error (.at .expectedListSeparator (c :: rest))
termination_by text.length
decreasing_by
  have h₁ := length_skipBlanks_le rest
  have h₂ := length_skipBlanks_le taken.rest
  have h₃ := taken.shorter
  rw [_h, List.length_cons] at h₂
  omega

/-- Reads a colon between blanks. -/
def colon : Reader Unit := fun text =>
  match h : skipBlanks text with
  | [] => .error (.at .endInObject [])
  | c :: rest =>
    if c = ':' then
      .ok ⟨(), rest, by have := length_skipBlanks_le text; rw [h, List.length_cons] at this; omega⟩
    else .error (.at .expectedColon (c :: rest))

/-- Reads one member of an object: its name, a colon and its value. -/
def member (value : Reader Json) : Reader (String × Json) := fun text =>
  match text with
  | [] => .error (.at .endInValue [])
  | c :: rest =>
    if c = '"' then do
      let name ← takeString rest
      let mark ← colon name.rest
      let content ← value mark.rest
      return ⟨(name.value, content.value), content.rest,
        Nat.lt_trans content.shorter
          (Nat.lt_trans mark.shorter (Nat.lt_trans name.shorter (Nat.lt_succ_self _)))⟩
    else .error (.at .expectedKey (c :: rest))

/-- Reads the members of an object up to its closing brace, onto those already
read, the last one first. -/
def members (value : Reader Json) (read : List (String × Json)) (text : List Char) :
    Except Fault (List (String × Json) × List Char) :=
  match member value text with
  | .error fault => .error fault
  | .ok taken =>
    match _h : skipBlanks taken.rest with
    | [] => .error (.at .endInObject [])
    | c :: rest =>
      if c = '\x7d' then .ok ((taken.value :: read).reverse, rest)
      else if c = ',' then
        if (skipBlanks rest).head? = some '\x7d' then
          .error (.at .trailingComma (skipBlanks rest))
        else members value (taken.value :: read) (skipBlanks rest)
      else .error (.at .expectedObjectSeparator (c :: rest))
termination_by text.length
decreasing_by
  have h₁ := length_skipBlanks_le rest
  have h₂ := length_skipBlanks_le taken.rest
  have h₃ := taken.shorter
  rw [_h, List.length_cons] at h₂
  omega

theorem entries_shorter {value : Reader Json} {read es : List Json} {text rest : List Char}
    (h : entries value read text = .ok (es, rest)) : rest.length < text.length := by
  fun_induction entries value read text with
  | case1 | case2 | case4 | case6 => simp at h
  | case3 read text taken _ rest' hs =>
    have := length_skipBlanks_le taken.rest
    have := taken.shorter
    simp_all only [List.length_cons, Except.ok.injEq, Prod.mk.injEq]
    omega
  | case5 read text taken _ rest' hs _ _ ih =>
    have := length_skipBlanks_le taken.rest
    have := length_skipBlanks_le rest'
    have := taken.shorter
    have := ih h
    simp_all only [List.length_cons]
    omega

theorem members_shorter {value : Reader Json} {read ms : List (String × Json)}
    {text rest : List Char} (h : members value read text = .ok (ms, rest)) :
    rest.length < text.length := by
  fun_induction members value read text with
  | case1 | case2 | case4 | case6 => simp at h
  | case3 read text taken _ rest' hs =>
    have := length_skipBlanks_le taken.rest
    have := taken.shorter
    simp_all only [List.length_cons, Except.ok.injEq, Prod.mk.injEq]
    omega
  | case5 read text taken _ rest' hs _ _ ih =>
    have := length_skipBlanks_le taken.rest
    have := length_skipBlanks_le rest'
    have := taken.shorter
    have := ih h
    simp_all only [List.length_cons]
    omega

/-- Reads the rest of an array, from behind its opening bracket. -/
def takeArray (value : Reader Json) : Reader Json := fun text =>
  match h : skipBlanks text with
  | [] => .error (.at .endInList [])
  | c :: rest =>
    have le : (c :: rest).length ≤ text.length := h ▸ length_skipBlanks_le text
    if c = ']' then .ok ⟨.array [], rest, le⟩
    else
      match he : entries value [] (c :: rest) with
      | .error fault => .error fault
      | .ok (es, after) => .ok ⟨.array es, after, Nat.lt_of_lt_of_le (entries_shorter he) le⟩

/-- Reads the rest of an object, from behind its opening brace. -/
def takeObject (value : Reader Json) : Reader Json := fun text =>
  match h : skipBlanks text with
  | [] => .error (.at .endInObject [])
  | c :: rest =>
    have le : (c :: rest).length ≤ text.length := h ▸ length_skipBlanks_le text
    if c = '\x7d' then .ok ⟨.object [], rest, le⟩
    else
      match hm : members value [] (c :: rest) with
      | .error fault => .error fault
      | .ok (ms, after) => .ok ⟨.object ms, after, Nat.lt_of_lt_of_le (members_shorter hm) le⟩

/-! ### Values -/

/-- Reads a value whose first character is `c`, with a reader for the values
inside it; `none` where nothing may stand inside any more. -/
def startingWith (inner : Option (Reader Json)) (c : Char) (rest : List Char) :
    Except Fault (Taken Json (c :: rest)) :=
  if c = 'n' then word c "ull" .null rest
  else if c = 't' then word c "rue" (.bool true) rest
  else if c = 'f' then word c "alse" (.bool false) rest
  else if c = '"' then do
    let taken ← takeString rest
    return ⟨.string taken.value, taken.rest, Nat.lt_succ_of_lt taken.shorter⟩
  else if c = '-' || c.isDigit then do
    let taken ← takeNumber (c :: rest)
    return { taken with value := .number taken.value }
  else if c = '[' || c = '\x7b' then
    match inner with
    | none => .error (.at .nestedTooDeep (c :: rest))
    | some value => do
      let taken ← if c = '[' then takeArray value rest else takeObject value rest
      return { taken with shorter := Nat.lt_succ_of_lt taken.shorter }
  else .error (.at .expectedValue (c :: rest))

/-- Reads a value in which arrays and objects are nested at most `depth` deep. -/
def takeValue : (depth : Nat) → Reader Json
  | depth, text =>
    match h : skipBlanks text with
    | [] => .error (.at .endInValue [])
    | c :: rest => do
      let inner := match depth with
        | 0 => none
        | depth + 1 => some (takeValue depth)
      let taken ← startingWith inner c rest
      return { taken with
        shorter := Nat.lt_of_lt_of_le taken.shorter (h ▸ length_skipBlanks_le text) }

/-- Arrays and objects may be nested this deep. -/
def nestingLimit : Nat := 127

/-- Reads a text that is one value between blanks. -/
def parse (text : List Char) : Except Fault Json := do
  let taken ← takeValue nestingLimit text
  match skipBlanks taken.rest with
  | [] => return taken.value
  | rest => .error (.at .trailingCharacters rest)

end Json

end ForceDiagram
