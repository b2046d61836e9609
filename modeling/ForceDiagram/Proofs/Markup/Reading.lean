/-
ForceDiagram/Proofs/Markup/Reading.lean

A document that was written is read back.

Writing puts tokens one after the other, and two texts next to each other cannot be
told apart any more; neither can an empty text and none.  `layout` says what can be
told of tokens: what stands before the first tag, and each tag with the texts behind
it put together.  Reading what was written gives the layout, every value and every
text in escaped form (`read_written`): names end at the first character that belongs
to no name, values at the first quote, texts at the first tag, and an escaped text has
neither quotes nor tags.  So nothing that is said in a value or a text can end it.
-/
import ForceDiagram.Proofs.Lists
import ForceDiagram.Proofs.Markup.Escape

namespace ForceDiagram

namespace Markup

/-! ### What can be told of tokens -/

/-- What stands before the first tag, and each tag with the text behind it. -/
def layout : List Token → String × List Piece
  | [] => ("", [])
  | .text content :: rest => (content ++ (layout rest).1, (layout rest).2)
  | .start tag attributes :: rest =>
    ("", ⟨⟨.start, tag, attributes⟩, (layout rest).1⟩ :: (layout rest).2)
  | .finish tag :: rest => ("", ⟨⟨.finish, tag, []⟩, (layout rest).1⟩ :: (layout rest).2)
  | .lone tag attributes :: rest =>
    ("", ⟨⟨.lone, tag, attributes⟩, (layout rest).1⟩ :: (layout rest).2)

/-- Tokens of which the second begin with a tag. -/
theorem layout_append {s t : List Token} {lead : String} {ps qs : List Piece}
    (hs : layout s = (lead, ps)) (ht : layout t = ("", qs)) :
    layout (s ++ t) = (lead, ps ++ qs) := by
  induction s generalizing lead ps with
  | nil =>
    obtain ⟨rfl, rfl⟩ := Prod.mk.inj hs
    exact ht
  | cons a s ih =>
    have hrest := ih (Prod.eta (layout s)).symm
    cases a <;>
      · obtain ⟨rfl, rfl⟩ := Prod.mk.inj hs
        simp only [List.cons_append, layout, hrest]

/-- Several runs of tokens, each of which begins with a tag. -/
theorem layout_flatMap {α : Type} {f : α → List Token} (h : ∀ a, (layout (f a)).1 = "")
    (as : List α) :
    layout (as.flatMap f) = ("", as.flatMap fun a => (layout (f a)).2) := by
  induction as with
  | nil => rfl
  | cons a as ih => exact layout_append (Prod.ext (h a) rfl) ih

/-! ### Pieces as they are written -/

/-- A text as it stands in a document. -/
def escaped (s : String) : String := String.ofList (escape s.toList)

@[simp] theorem toList_escaped (s : String) : (escaped s).toList = escape s.toList :=
  String.toList_ofList

@[simp] theorem meaning_escaped (s : String) : meaning (escaped s) = s := meaning_escape s

def Attribute.escaped (a : Attribute) : Attribute := ⟨a.name, Markup.escaped a.value⟩

@[simp] theorem Attribute.meaning_escaped (a : Attribute) : a.escaped.meaning = a := by
  rw [Attribute.meaning, Attribute.escaped, Markup.meaning_escaped]

/-- A piece as it stands in a document. -/
def Piece.escaped (p : Piece) : Piece :=
  ⟨{ p.tag with attributes := p.tag.attributes.map Attribute.escaped }, Markup.escaped p.text⟩

@[simp] theorem Piece.meaning_escaped (p : Piece) : p.escaped.meaning = p := by
  have hattributes : p.tag.attributes.map (Attribute.meaning ∘ Attribute.escaped) =
      p.tag.attributes := by
    rw [funext (f := Attribute.meaning ∘ Attribute.escaped) Attribute.meaning_escaped,
      List.map_id']
  rw [Piece.meaning, Piece.escaped, List.map_map, hattributes, Markup.meaning_escaped]

/-- A piece in escaped form, with the values of its tag. -/
structure Piece.IsEscaped (p : Piece) : Prop where
  values : ∀ a ∈ p.tag.attributes, Escaped a.value.toList
  text : Escaped p.text.toList

theorem Piece.isEscaped_escaped (p : Piece) : p.escaped.IsEscaped where
  values := by
    intro a ha
    obtain ⟨b, -, rfl⟩ := List.mem_map.mp ha
    rw [Attribute.escaped, toList_escaped]
    exact escaped_escape _
  text := by
    rw [Piece.escaped, toList_escaped]
    exact escaped_escape _

/-- The tag as a token. -/
def Tag.token : Tag → Token
  | ⟨.start, name, attributes⟩ => .start name attributes
  | ⟨.finish, name, _⟩ => .finish name
  | ⟨.lone, name, attributes⟩ => .lone name attributes

def Piece.written (p : Piece) : List Char := p.tag.token.written ++ escape p.text.toList

theorem escape_append (s t : List Char) : escape (s ++ t) = escape s ++ escape t :=
  List.flatMap_append

/-- Tokens are written as their layout is. -/
theorem written_eq_layout (tokens : List Token) :
    tokens.flatMap Token.written =
      escape (layout tokens).1.toList ++ (layout tokens).2.flatMap Piece.written := by
  induction tokens with
  | nil => rfl
  | cons a rest ih =>
    rw [List.flatMap_cons, ih]
    cases a with
    | text content =>
      simp only [layout, String.toList_append, escape_append, List.append_assoc]
      rfl
    | start tag attributes =>
      simp only [layout, List.flatMap_cons, Piece.written, List.append_assoc]
      rfl
    | finish tag =>
      simp only [layout, List.flatMap_cons, Piece.written, List.append_assoc]
      rfl
    | lone tag attributes =>
      simp only [layout, List.flatMap_cons, Piece.written, List.append_assoc]
      rfl

/-! ### Reading tags -/

/-- A name that a tag or an attribute can have. -/
def IsName (name : String) : Prop := ∀ c ∈ name.toList, isNameChar c = true

instance (name : String) : Decidable (IsName name) :=
  List.decidableBAll (fun c => isNameChar c = true) name.toList

/-- A tag that is read as it is written: its names are names, and attributes stand in
tags that begin something. -/
structure Tag.WellNamed (t : Tag) : Prop where
  nonempty : t.name ≠ ""
  name : IsName t.name
  attributes : ∀ a ∈ t.attributes, IsName a.name
  finish : t.shape = .finish → t.attributes = []

theorem forall_mem_escape_ne {c : Char} (hc : c ∈ specials) (hne : c ≠ '&') (text : List Char) :
    ∀ d ∈ escape text, decide (d ≠ c) = true := by
  intro d hd
  refine decide_eq_true ?_
  rintro rfl
  exact (escaped_escape text).not_mem hc hne hd

/-- An escaped text ends before any special character but the ampersand. -/
theorem split_escaped {c : Char} (hc : c ∈ specials) (hne : c ≠ '&') (text rest : List Char) :
    (escape text ++ c :: rest).takeWhile (· ≠ c) = escape text ∧
      (escape text ++ c :: rest).dropWhile (· ≠ c) = c :: rest := by
  have hall := forall_mem_escape_ne hc hne text
  have hstop := head?_cons_eq_false (p := fun d => decide (d ≠ c)) (a := c) (by simp) rest
  exact ⟨takeWhile_append_of_head hall hstop, dropWhile_append_of_head hall hstop⟩

theorem readAttribute_written {a : Attribute} (h : IsName a.name) (rest : List Char) :
    readAttribute (a.name.toList ++ '=' :: '"' :: (escape a.value.toList ++ '"' :: rest)) =
      some (a.escaped, rest) := by
  unfold readAttribute
  have hmark := head?_cons_eq_false (p := isNameChar) (a := '=') (by decide)
    ('"' :: (escape a.value.toList ++ '"' :: rest))
  rw [dropWhile_append_of_head h hmark, takeWhile_append_of_head h hmark]
  obtain ⟨hvalue, hafter⟩ := split_escaped (c := '"') (by decide) (by decide) a.value.toList rest
  simp only [hvalue, hafter, String.ofList_toList]
  rfl

/-- Attributes are read up to the end of their tag. -/
theorem readAttributes_written {as : List Attribute} (h : ∀ a ∈ as, IsName a.name)
    {after rest : List Char} {lone : Bool} (hend : readAttributes after = some ([], lone, rest)) :
    readAttributes (as.flatMap Attribute.written ++ after) =
      some (as.map Attribute.escaped, lone, rest) := by
  induction as with
  | nil => exact hend
  | cons a as ih =>
    have hrest := ih fun b hb => h b (List.mem_cons_of_mem a hb)
    have hwritten : a.written ++ (as.flatMap Attribute.written ++ after) =
        ' ' :: (a.name.toList ++ '=' :: '"' :: (escape a.value.toList ++
          '"' :: (as.flatMap Attribute.written ++ after))) := by
      simp [Attribute.written]
    rw [List.flatMap_cons, List.append_assoc, hwritten, readAttributes]
    have hfirst := readAttribute_written (h a List.mem_cons_self)
      (as.flatMap Attribute.written ++ after)
    split
    · next b middle hb =>
      rw [hfirst, Option.some.injEq, Prod.mk.injEq] at hb
      rw [← hb.1, ← hb.2, hrest]
      rfl
    · next hnone => simp [hfirst] at hnone

theorem readAttributes_start (rest : List Char) :
    readAttributes ('>' :: rest) = some ([], false, rest) := by rw [readAttributes]

theorem readAttributes_lone (rest : List Char) :
    readAttributes ('/' :: '>' :: rest) = some ([], true, rest) := by rw [readAttributes]

/-- A tag that begins something is read up to its end. -/
theorem readTag_of_readAttributes {name : String} (hname : IsName name) (hne : name ≠ "")
    {text after : List Char} {as : List Attribute} {lone : Bool}
    (htext : ∀ c, text.head? = some c → isNameChar c = false)
    (hread : readAttributes text = some (as, lone, after)) :
    readTag (name.toList ++ text) =
      some (⟨if lone then .lone else .start, name, as⟩, after) := by
  have hdrop := dropWhile_append_of_head hname htext
  have htake := takeWhile_append_of_head hname htext
  have hslash : ∀ rest, name.toList ++ text ≠ '/' :: rest := by
    intro rest heq
    rcases hcs : name.toList with - | ⟨c, cs⟩
    · exact hne (by rw [← String.ofList_toList (s := name), hcs])
    · rw [hcs, List.cons_append, List.cons.injEq] at heq
      have hc := hname c (by rw [hcs]; exact List.mem_cons_self)
      rw [heq.1] at hc
      exact absurd hc (by decide)
  unfold readTag
  split
  · next rest heq => exact absurd heq (hslash rest)
  · rw [hdrop, htake, hread, String.ofList_toList]
    rfl

theorem head?_attributes_written {as : List Attribute} {after : List Char}
    (hafter : ∀ c, after.head? = some c → isNameChar c = false) :
    ∀ c, (as.flatMap Attribute.written ++ after).head? = some c → isNameChar c = false := by
  cases as with
  | nil => exact hafter
  | cons a as =>
    rintro c ⟨⟩
    decide

/-- A written tag is read up to its end, its values in escaped form. -/
theorem readTag_written {t : Tag} (h : t.WellNamed) (rest : List Char) :
    ∃ text, t.token.written = '<' :: text ∧ readTag (text ++ rest) =
      some ({ t with attributes := t.attributes.map Attribute.escaped }, rest) := by
  obtain ⟨shape, name, attributes⟩ := t
  cases shape with
  | start =>
    refine ⟨name.toList ++ attributes.flatMap Attribute.written ++ ['>'], rfl, ?_⟩
    rw [List.append_assoc, List.append_assoc, List.singleton_append]
    exact readTag_of_readAttributes h.name h.nonempty
      (head?_attributes_written (by rintro c ⟨⟩; decide))
      (readAttributes_written h.attributes (readAttributes_start rest))
  | lone =>
    refine ⟨name.toList ++ attributes.flatMap Attribute.written ++ ['/', '>'], rfl, ?_⟩
    rw [List.append_assoc, List.append_assoc]
    exact readTag_of_readAttributes h.name h.nonempty
      (head?_attributes_written (by rintro c ⟨⟩; decide))
      (readAttributes_written h.attributes (readAttributes_lone rest))
  | finish =>
    obtain rfl : attributes = [] := h.finish rfl
    refine ⟨'/' :: name.toList ++ ['>'], rfl, ?_⟩
    have hend := head?_cons_eq_false (p := isNameChar) (a := '>') (by decide) rest
    have htext := dropWhile_append_of_head h.name hend
    have hname := takeWhile_append_of_head h.name hend
    rw [List.append_assoc, List.singleton_append, List.cons_append, readTag, htext]
    simp only [hname, String.ofList_toList, List.map_nil]

/-! ### Reading documents -/

/-- What stands behind a text is the end of the document or a tag. -/
theorem head?_written (ps : List Piece) :
    ∀ c, (ps.flatMap Piece.written).head? = some c → c = '<' := by
  cases ps with
  | nil => nofun
  | cons p ps =>
    intro c hc
    obtain ⟨⟨shape, name, attributes⟩, text⟩ := p
    cases shape <;> exact (Option.some.inj hc).symm

/-- A text is read up to the next tag. -/
theorem split_text (text : List Char) (ps : List Piece) :
    (escape text ++ ps.flatMap Piece.written).takeWhile (· ≠ '<') = escape text ∧
      (escape text ++ ps.flatMap Piece.written).dropWhile (· ≠ '<') =
        ps.flatMap Piece.written := by
  have hall := forall_mem_escape_ne (c := '<') (by decide) (by decide) text
  have hstop : ∀ c, (ps.flatMap Piece.written).head? = some c → decide (c ≠ '<') = false := by
    intro c hc
    rw [head?_written ps c hc]
    decide
  exact ⟨takeWhile_append_of_head hall hstop, dropWhile_append_of_head hall hstop⟩

/-- Written pieces are read back as they stand. -/
theorem read_pieces {ps : List Piece} (h : ∀ p ∈ ps, p.tag.WellNamed) :
    read (ps.flatMap Piece.written) = some (ps.map Piece.escaped) := by
  induction ps with
  | nil => rw [List.flatMap_nil, read, List.map_nil]
  | cons p ps ih =>
    have hrest := ih fun q hq => h q (List.mem_cons_of_mem p hq)
    obtain ⟨htake, hdrop⟩ := split_text p.text.toList ps
    obtain ⟨text, hwritten, hread⟩ := readTag_written (h p List.mem_cons_self)
      (escape p.text.toList ++ ps.flatMap Piece.written)
    rw [List.flatMap_cons, Piece.written, hwritten, List.cons_append, List.cons_append,
      List.append_assoc, read, if_pos rfl]
    split
    · next t after ht =>
      rw [hread, Option.some.injEq, Prod.mk.injEq] at ht
      rw [← ht.1, ← ht.2, htake, hdrop, hrest]
      rfl
    · next hnone => simp [hread] at hnone

/-- **Reading what was written gives its layout, in escaped form.** -/
theorem read_written {tokens : List Token} (hlead : (layout tokens).1 = "")
    (h : ∀ p ∈ (layout tokens).2, p.tag.WellNamed) :
    read (render tokens).toList = some ((layout tokens).2.map Piece.escaped) := by
  rw [render, String.toList_ofList, written_eq_layout, hlead]
  exact read_pieces h

end Markup

end ForceDiagram
