/-
ForceDiagram/Markup/Reading.lean

Reading a document of tags and text.

Design.  A document is cut at its tags.  Every tag is read character by character,
its attribute values up to the closing quote, and what stands between it and the next
tag is its text; so a `Piece` is a tag with the text behind it, both as they stand in
the document.  References are undone afterwards, in values and texts alike: only what
is read says where a tag ends, never what a value means.  A document that does not
begin with a tag, and one with a tag that is not closed, are not read.
-/
import ForceDiagram.Markup.Token

namespace ForceDiagram

namespace Markup

/-- Whether a tag begins an element, ends one, or is an element with nothing in it. -/
inductive Shape where
  | start
  | finish
  | lone
deriving DecidableEq, Repr

structure Tag where
  shape : Shape
  name : String
  attributes : List Attribute
deriving DecidableEq, Repr

/-- The value of an attribute. -/
def Tag.value? (t : Tag) (name : String) : Option String :=
  (t.attributes.find? fun a => a.name == name).map (·.value)

/-- A tag without the values of its attributes. -/
def Tag.outline (t : Tag) : Shape × String × List String :=
  (t.shape, t.name, t.attributes.map (·.name))

/-- A tag, and the text up to the next one. -/
structure Piece where
  tag : Tag
  text : String
deriving DecidableEq, Repr

/-! ### Undoing references -/

/-- A text without its references. -/
def unescape : List Char → List Char
  | '&' :: 'a' :: 'm' :: 'p' :: ';' :: rest => '&' :: unescape rest
  | '&' :: 'l' :: 't' :: ';' :: rest => '<' :: unescape rest
  | '&' :: 'g' :: 't' :: ';' :: rest => '>' :: unescape rest
  | '&' :: 'q' :: 'u' :: 'o' :: 't' :: ';' :: rest => '"' :: unescape rest
  | '&' :: '#' :: '3' :: '9' :: ';' :: rest => '\'' :: unescape rest
  | c :: rest => c :: unescape rest
  | [] => []

/-- What a written text says. -/
def meaning (written : String) : String := String.ofList (unescape written.toList)

/-- An attribute with the value its written one stands for. -/
def Attribute.meaning (a : Attribute) : Attribute := ⟨a.name, Markup.meaning a.value⟩

/-- A piece with the values and the text that its written ones stand for. -/
def Piece.meaning (p : Piece) : Piece :=
  ⟨{ p.tag with attributes := p.tag.attributes.map Attribute.meaning }, Markup.meaning p.text⟩

/-! ### Cutting at tags -/

/-- The characters of names. -/
def isNameChar (c : Char) : Bool := c.isAlphanum || c = '-'

/-- Reads an attribute, from behind the blank before it. -/
def readAttribute (text : List Char) : Option (Attribute × List Char) :=
  match text.dropWhile isNameChar with
  | '=' :: '"' :: rest =>
    match rest.dropWhile (· ≠ '"') with
    | _ :: after =>
      some (⟨String.ofList (text.takeWhile isNameChar),
        String.ofList (rest.takeWhile (· ≠ '"'))⟩, after)
    | [] => none
  | _ => none

theorem length_lt_of_readAttribute {text after : List Char} {a : Attribute}
    (h : readAttribute text = some (a, after)) : after.length < text.length := by
  unfold readAttribute at h
  split at h
  · next rest hrest =>
    split at h
    · next c after' hafter =>
      simp only [Option.some.injEq, Prod.mk.injEq] at h
      have h₁ := (List.dropWhile_suffix (l := text) isNameChar).length_le
      have h₂ := (List.dropWhile_suffix (l := rest) (· ≠ '"')).length_le
      rw [hrest] at h₁
      rw [hafter] at h₂
      simp only [List.length_cons] at h₁ h₂
      rw [← h.2]
      omega
    · simp at h
  · simp at h

/-- Reads attributes up to the end of their tag; whether the tag is an element of its
own. -/
def readAttributes : (text : List Char) → Option (List Attribute × Bool × List Char)
  | ' ' :: rest =>
    match _h : readAttribute rest with
    | some (a, after) => (readAttributes after).map fun read => (a :: read.1, read.2)
    | none => none
  | '/' :: '>' :: rest => some ([], true, rest)
  | '>' :: rest => some ([], false, rest)
  | _ => none
termination_by text => text.length
decreasing_by exact Nat.lt_succ_of_lt (length_lt_of_readAttribute _h)

/-- Reads a tag, from behind its first character. -/
def readTag (text : List Char) : Option (Tag × List Char) :=
  match text with
  | '/' :: rest =>
    match rest.dropWhile isNameChar with
    | '>' :: after => some (⟨.finish, String.ofList (rest.takeWhile isNameChar), []⟩, after)
    | _ => none
  | text =>
    (readAttributes (text.dropWhile isNameChar)).map fun (attributes, lone, after) =>
      (⟨if lone then .lone else .start, String.ofList (text.takeWhile isNameChar), attributes⟩,
        after)

theorem length_le_of_readAttributes {text after : List Char} {as : List Attribute} {lone : Bool}
    (h : readAttributes text = some (as, lone, after)) : after.length ≤ text.length := by
  fun_induction readAttributes text generalizing as lone after with
  | case1 rest a middle ha ih =>
    obtain ⟨⟨as', lone', after'⟩, hread, heq⟩ := Option.map_eq_some_iff.mp h
    simp only [Prod.mk.injEq] at heq
    have hmiddle := length_lt_of_readAttribute ha
    have hafter := ih hread
    rw [← heq.2.2]
    simp only [List.length_cons]
    omega
  | case2 => simp at h
  | case3 rest =>
    obtain ⟨-, -, rfl⟩ : as = [] ∧ lone = true ∧ after = rest := by simpa [eq_comm] using h
    simp only [List.length_cons]
    omega
  | case4 rest =>
    obtain ⟨-, -, rfl⟩ : as = [] ∧ lone = false ∧ after = rest := by simpa [eq_comm] using h
    exact Nat.le_succ _
  | case5 => simp at h

theorem length_le_of_readTag {text after : List Char} {t : Tag}
    (h : readTag text = some (t, after)) : after.length ≤ text.length := by
  unfold readTag at h
  split at h
  · next rest =>
    split at h
    · next after' hafter =>
      have hdrop := (List.dropWhile_suffix (l := rest) isNameChar).length_le
      simp only [Option.some.injEq, Prod.mk.injEq] at h
      rw [hafter] at hdrop
      simp only [List.length_cons] at hdrop ⊢
      rw [← h.2]
      omega
    · simp at h
  · obtain ⟨⟨as, lone, after'⟩, hread, heq⟩ := Option.map_eq_some_iff.mp h
    have hdrop := (List.dropWhile_suffix (l := text) isNameChar).length_le
    have hafter := length_le_of_readAttributes hread
    simp only [Prod.mk.injEq] at heq
    rw [← heq.2]
    omega

/-- The pieces of a document. -/
def read : (document : List Char) → Option (List Piece)
  | [] => some []
  | c :: rest =>
    if c = '<' then
      match _h : readTag rest with
      | some (t, after) =>
        (read (after.dropWhile (· ≠ '<'))).map
          (⟨t, String.ofList (after.takeWhile (· ≠ '<'))⟩ :: ·)
      | none => none
    else none
termination_by document => document.length
decreasing_by
  have hafter := length_le_of_readTag _h
  have hdrop := (List.dropWhile_suffix (l := after) (· ≠ '<')).length_le
  simp only [List.length_cons]
  omega

/-- The tags of a document with the names of their attributes, in their order. -/
def outline (document : String) : Option (List (Shape × String × List String)) :=
  (read document.toList).map fun pieces => pieces.map (·.tag.outline)

end Markup

end ForceDiagram
