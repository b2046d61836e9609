/-
ForceDiagram/Proofs/Markup/Escape.lean

What escaping leaves of a text, and that it can be undone.

An escaped text has none of the four characters that end a tag, a value or a text,
and every ampersand in it begins one of the five references (`escaped_escape`).
Undoing the references gives the text back (`unescape_escape`), so no ampersand is
escaped twice and different texts stay different.  A text without the five characters
is written as it is (`escape_of_plain`), and so is one of letters, digits and the few
marks between them (`Signs`).
-/
import ForceDiagram.Markup.Reading
import Mathlib.Data.Bool.AllAny
import Mathlib.Data.List.Basic

namespace ForceDiagram

namespace Markup

/-- The characters that a text is not written with. -/
def specials : List Char := ['&', '<', '>', '"', '\'']

/-- The references that stand for them. -/
def references : List (List Char) :=
  ["&amp;".toList, "&lt;".toList, "&gt;".toList, "&quot;".toList, "&#39;".toList]

/-- A text without special characters. -/
def Plain (text : List Char) : Prop := ∀ c ∈ text, c ∉ specials

instance (text : List Char) : Decidable (Plain text) :=
  List.decidableBAll (fun c => c ∉ specials) text

/-- Letters, digits and the marks that stand between them in a value. -/
def isSign (c : Char) : Bool :=
  c.isAlphanum || c ∈ [' ', '-', '.', ',', '#', '%', ':', '/', '(', ')']

/-- A text of signs. -/
def Signs (text : List Char) : Prop := ∀ c ∈ text, isSign c = true

instance (text : List Char) : Decidable (Signs text) :=
  List.decidableBAll (fun c => isSign c = true) text

/-- A text whose characters have a property. -/
def Made (P : Char → Prop) (s : String) : Prop := ∀ c ∈ s.toList, P c

instance (P : Char → Prop) [DecidablePred P] (s : String) : Decidable (Made P s) :=
  List.decidableBAll P s.toList

/-- A text in escaped form: of the special characters only ampersands, and each of
these begins a reference. -/
structure Escaped (text : List Char) : Prop where
  marks : ∀ c ∈ text, c ∈ specials → c = '&'
  ampersands : ∀ rest, '&' :: rest <:+ text → ∃ r ∈ references, r <+: '&' :: rest

/-! ### Characters -/

/-- A character is written as a reference of its own, or it is not special and stands
for itself. -/
theorem escapeChar_cases (c : Char) :
    (c ∈ specials ∧ escapeChar c ∈ references ∧
      ∀ rest, unescape (escapeChar c ++ rest) = c :: unescape rest) ∨
    (c ∉ specials ∧ escapeChar c = [c]) := by
  unfold escapeChar
  split
  · exact .inl ⟨by decide, by decide, fun _ => rfl⟩
  · exact .inl ⟨by decide, by decide, fun _ => rfl⟩
  · exact .inl ⟨by decide, by decide, fun _ => rfl⟩
  · exact .inl ⟨by decide, by decide, fun _ => rfl⟩
  · exact .inl ⟨by decide, by decide, fun _ => rfl⟩
  · exact .inr ⟨by simp_all [specials], rfl⟩

theorem unescape_cons_of_ne {c : Char} (h : c ≠ '&') (rest : List Char) :
    unescape (c :: rest) = c :: unescape rest := by
  conv_lhs => unfold unescape
  split <;> simp_all

/-- A reference has one special character, at its front. -/
theorem references_front : ∀ r ∈ references, ∃ name, r = '&' :: name ∧ Plain name := by
  simp only [references, List.forall_mem_cons]
  exact ⟨⟨['a', 'm', 'p', ';'], rfl, by decide⟩, ⟨['l', 't', ';'], rfl, by decide⟩,
    ⟨['g', 't', ';'], rfl, by decide⟩, ⟨['q', 'u', 'o', 't', ';'], rfl, by decide⟩,
    ⟨['#', '3', '9', ';'], rfl, by decide⟩, nofun⟩

/-! ### Texts -/

theorem escape_cons (c : Char) (text : List Char) :
    escape (c :: text) = escapeChar c ++ escape text := List.flatMap_cons

/-- Undoing the references of an escaped text gives the text back. -/
@[simp] theorem unescape_escape (text : List Char) : unescape (escape text) = text := by
  induction text with
  | nil => rfl
  | cons c text ih =>
    rw [escape_cons]
    obtain ⟨-, -, hundo⟩ | ⟨hplain, hself⟩ := escapeChar_cases c
    · rw [hundo, ih]
    · have hne : c ≠ '&' := fun h => hplain (h ▸ by decide)
      rw [hself, List.singleton_append, unescape_cons_of_ne hne, ih]

@[simp] theorem plain_nil : Plain [] := nofun

@[simp] theorem plain_cons {c : Char} {text : List Char} :
    Plain (c :: text) ↔ c ∉ specials ∧ Plain text :=
  List.forall_mem_cons

@[simp] theorem plain_append {s t : List Char} : Plain (s ++ t) ↔ Plain s ∧ Plain t :=
  List.forall_mem_append

@[simp] theorem signs_append {s t : List Char} : Signs (s ++ t) ↔ Signs s ∧ Signs t :=
  List.forall_mem_append

@[simp] theorem made_append {P : Char → Prop} {s t : String} :
    Made P (s ++ t) ↔ Made P s ∧ Made P t := by
  simp only [Made, String.toList_append, List.forall_mem_append]

theorem Made.of_signs {P : Char → Prop} (hsign : ∀ c, isSign c = true → P c) {s : String}
    (h : Signs s.toList) : Made P s := fun c hc => hsign c (h c hc)

/-- Numbers are written in digits. -/
@[simp] theorem signs_toString (n : Nat) : Signs (toString n).toList := by
  intro c hc
  rw [Nat.toString_eq_repr, Nat.toList_repr] at hc
  have hdigit := Nat.isDigit_of_mem_toDigits (by decide) (by decide) hc
  rw [isSign, Char.isAlphanum, hdigit, Bool.or_true, Bool.true_or]

/-- No sign is a special character. -/
theorem not_mem_specials_of_isSign (c : Char) (h : isSign c = true) : c ∉ specials := by
  intro hspecial
  have hnone : ∀ d ∈ specials, isSign d = false := List.all_iff_forall_prop.mp (by decide)
  rw [hnone c hspecial] at h
  exact Bool.false_ne_true h

theorem Signs.plain {text : List Char} (h : Signs text) : Plain text := fun c hc =>
  not_mem_specials_of_isSign c (h c hc)

/-- A text without special characters is written as it is. -/
theorem escape_of_plain {text : List Char} (h : Plain text) : escape text = text := by
  induction text with
  | nil => rfl
  | cons c text ih =>
    obtain ⟨hspecial, -⟩ | ⟨-, hself⟩ := escapeChar_cases c
    · exact absurd hspecial (h c List.mem_cons_self)
    · rw [escape_cons, hself, ih fun d hd => h d (List.mem_cons_of_mem c hd)]
      rfl

/-- A suffix that begins behind the front of a text without ampersands begins behind
that text. -/
theorem suffix_of_suffix_append {front text rest : List Char} (h : '&' ∉ front)
    (hsuffix : '&' :: rest <:+ front ++ text) : '&' :: rest <:+ text := by
  induction front with
  | nil => exact hsuffix
  | cons c front ih =>
    rw [List.mem_cons, not_or] at h
    rw [List.cons_append, List.suffix_cons_iff] at hsuffix
    rcases hsuffix with heq | hsuffix
    · exact absurd (List.cons.inj heq).1 h.1
    · exact ih h.2 hsuffix

/-- **An escaped text is in escaped form.** -/
theorem escaped_escape (text : List Char) : Escaped (escape text) := by
  induction text with
  | nil => exact ⟨nofun, fun rest h => by simp [escape] at h⟩
  | cons c text ih =>
    rw [escape_cons]
    obtain ⟨-, href, -⟩ | ⟨hplain, hself⟩ := escapeChar_cases c
    · obtain ⟨name, hname, hplain⟩ := references_front _ href
      have hno : '&' ∉ name := fun h => hplain _ h (by decide)
      refine ⟨fun d hd hspecial => ?_, fun rest hrest => ?_⟩
      · rw [hname, List.cons_append, List.mem_cons, List.mem_append] at hd
        rcases hd with rfl | hd | hd
        · rfl
        · exact absurd hspecial (hplain d hd)
        · exact ih.marks d hd hspecial
      · rw [hname, List.cons_append, List.suffix_cons_iff] at hrest
        rcases hrest with heq | hrest
        · exact ⟨_, href, by rw [heq, hname]; exact List.prefix_append ('&' :: name) _⟩
        · exact ih.ampersands rest (suffix_of_suffix_append hno hrest)
    · rw [hself]
      have hno : '&' ∉ [c] := by
        rintro h
        exact hplain (List.mem_singleton.mp h ▸ by decide)
      refine ⟨fun d hd hspecial => ?_, fun rest hrest => ?_⟩
      · rw [List.singleton_append, List.mem_cons] at hd
        rcases hd with rfl | hd
        · exact absurd hspecial hplain
        · exact ih.marks d hd hspecial
      · exact ih.ampersands rest (suffix_of_suffix_append hno hrest)

theorem Escaped.not_mem {text : List Char} (h : Escaped text) {c : Char} (hc : c ∈ specials)
    (hne : c ≠ '&') : c ∉ text := fun hmem => hne (h.marks c hmem hc)

/-- What is written for a text means the text. -/
@[simp] theorem meaning_escape (s : String) :
    meaning (String.ofList (escape s.toList)) = s := by
  rw [meaning, String.toList_ofList, unescape_escape, String.ofList_toList]

end Markup

end ForceDiagram
