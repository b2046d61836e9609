/-
ForceDiagram/Proofs/Scene/Legible.lean

Which documents are text that XML 1.0 allows.

XML leaves out most control characters, and two codes that stand for no character.  A
document is written in allowed characters but for what its scene says: tags, numbers and
style rules have none of the others (`Svg.legible_pieces_iff`), and a text is allowed in
escaped form exactly if it was before, since escaping replaces five characters, all of
them allowed, and keeps the rest (`legible_escape`).

Main result: the document of a dataset is legible exactly if the names and types of its
records are (`Graph.legible_svg_tick`).  No character of a string is out of reach of a
dataset, so not every dataset has a legible document (`Graph.not_legible_svg_of_control`).
-/
import ForceDiagram.Proofs.Command.Export
import ForceDiagram.Proofs.Dataset.Reading

namespace ForceDiagram

variable {F : Type} [Scalar F]

namespace Markup

/-! ### Characters -/

/-- The characters of documents in XML 1.0. -/
def isXmlChar (c : Char) : Bool :=
  c ∈ ['\t', '\n', '\r'] || (0x20 ≤ c.toNat && c.toNat ≤ 0xd7ff) ||
    (0xe000 ≤ c.toNat && c.toNat ≤ 0xfffd) || (0x10000 ≤ c.toNat && c.toNat ≤ 0x10ffff)

/-- A text in these characters. -/
def Legible (s : String) : Prop := Made (fun c => isXmlChar c = true) s

instance (s : String) : Decidable (Legible s) :=
  inferInstanceAs (Decidable (Made _ s))

theorem isXmlChar_of_between {c : Char} (hlow : 0x20 ≤ c.toNat) (hhigh : c.toNat ≤ 0xd7ff) :
    isXmlChar c = true := by
  simp [isXmlChar, hlow, hhigh]

/-- Letters and digits lie between the first digit and the last letter. -/
theorem between_of_isAlphanum {c : Char} (h : c.isAlphanum = true) :
    '0'.toNat ≤ c.toNat ∧ c.toNat ≤ 'z'.toNat := by
  rcases Bool.or_eq_true_iff.mp h with hletter | hdigit
  · rcases Bool.or_eq_true_iff.mp hletter with hupper | hlower
    · obtain ⟨hlow, hhigh⟩ : 'A'.val ≤ c.val ∧ c.val ≤ 'Z'.val := of_decide_eq_true hupper
      rw [UInt32.le_iff_toNat_le] at hlow hhigh
      exact ⟨Nat.le_trans (by decide) hlow, Nat.le_trans hhigh (by decide)⟩
    · obtain ⟨hlow, hhigh⟩ := Bool.and_eq_true_iff.mp hlower
      have hlow := UInt32.le_iff_toNat_le.mp (of_decide_eq_true hlow)
      exact ⟨Nat.le_trans (by decide) hlow,
        UInt32.le_iff_toNat_le.mp (of_decide_eq_true hhigh)⟩
  · obtain ⟨hlow, hhigh⟩ := Char.isDigit_iff_toNat.mp hdigit
    exact ⟨hlow, Nat.le_trans hhigh (by decide)⟩

theorem isXmlChar_of_isSign (c : Char) (h : isSign c = true) : isXmlChar c = true := by
  have hmarks : ∀ d ∈ [' ', '-', '.', ',', '#', '%', ':', '/', '(', ')'], isXmlChar d = true :=
    List.all_eq_true.mp (by decide)
  rcases Bool.or_eq_true_iff.mp h with halpha | hmark
  · obtain ⟨hlow, hhigh⟩ := between_of_isAlphanum halpha
    exact isXmlChar_of_between (Nat.le_trans (by decide) hlow) (Nat.le_trans hhigh (by decide))
  · exact hmarks c (of_decide_eq_true hmark)

theorem Signs.legible {s : String} (h : Signs s.toList) : Legible s :=
  .of_signs isXmlChar_of_isSign h

/-! ### Writing -/

/-- Escaping takes no character out and brings none in. -/
theorem legible_escape (text : List Char) :
    (∀ c ∈ escape text, isXmlChar c = true) ↔ ∀ c ∈ text, isXmlChar c = true := by
  have hspecials : ∀ c ∈ specials, isXmlChar c = true := List.all_eq_true.mp (by decide)
  have hreferences : ∀ r ∈ references, r.all isXmlChar = true := by decide
  have hchar : ∀ c, (∀ d ∈ escapeChar c, isXmlChar d = true) ↔ isXmlChar c = true := by
    intro c
    obtain ⟨hspecial, href, -⟩ | ⟨-, hself⟩ := escapeChar_cases c
    · -- both the character and its reference are allowed
      exact iff_of_true (List.all_eq_true.mp (hreferences _ href)) (hspecials c hspecial)
    · rw [hself, List.forall_mem_singleton]
  simp only [escape, List.forall_mem_flatMap, hchar]

theorem IsName.isXmlChar {name : String} (h : IsName name) :
    ∀ c ∈ name.toList, isXmlChar c = true := by
  intro c hc
  refine isXmlChar_of_isSign c ?_
  have hname := h c hc
  simp only [isNameChar, Bool.or_eq_true, decide_eq_true_eq] at hname
  rcases hname with halpha | rfl
  · rw [isSign, halpha, Bool.true_or]
  · decide

/-- Of an attribute the value counts. -/
theorem legible_attribute {a : Attribute} (h : IsName a.name) :
    (∀ c ∈ a.written, isXmlChar c = true) ↔ Legible a.value := by
  have hmarks : isXmlChar ' ' = true ∧ isXmlChar '=' = true ∧ isXmlChar '"' = true := by decide
  simp only [Attribute.written, List.cons_append, List.append_assoc, List.forall_mem_cons,
    List.forall_mem_append, legible_escape, hmarks, true_and, List.not_mem_nil, false_imp_iff,
    implies_true, and_true]
  exact and_iff_right h.isXmlChar

/-- Of a piece its values and its text count. -/
theorem legible_written {p : Piece} (h : p.tag.WellNamed) :
    (∀ c ∈ p.written, isXmlChar c = true) ↔
      (∀ a ∈ p.tag.attributes, Legible a.value) ∧ Legible p.text := by
  obtain ⟨⟨shape, name, attributes⟩, text⟩ := p
  have hmarks : isXmlChar '<' = true ∧ isXmlChar '/' = true ∧ isXmlChar '>' = true := by decide
  have hname : ∀ c ∈ name.toList, isXmlChar c = true := h.name.isXmlChar
  have hattributes : (∀ c ∈ attributes.flatMap Attribute.written, isXmlChar c = true) ↔
      ∀ a ∈ attributes, Legible a.value := by
    rw [List.forall_mem_flatMap]
    exact forall₂_congr fun a ha => legible_attribute (h.attributes a ha)
  rw [Piece.written, List.forall_mem_append, legible_escape]
  refine and_congr_left fun _ => ?_
  cases shape with
  | start =>
    simp only [Tag.token, Token.written, List.cons_append, List.append_assoc,
      List.forall_mem_cons, List.forall_mem_append, hattributes, hmarks, true_and,
      List.not_mem_nil, false_imp_iff, implies_true, and_true]
    exact and_iff_right hname
  | lone =>
    simp only [Tag.token, Token.written, List.cons_append, List.append_assoc,
      List.forall_mem_cons, List.forall_mem_append, hattributes, hmarks, true_and,
      List.not_mem_nil, false_imp_iff, implies_true, and_true]
    exact and_iff_right hname
  | finish =>
    obtain rfl : attributes = [] := h.finish rfl
    simp only [Tag.token, Token.written, List.cons_append,
      List.forall_mem_cons, List.forall_mem_append, hmarks, true_and,
      List.not_mem_nil, false_imp_iff, implies_true, and_true, iff_true]
    exact hname

end Markup

open Markup

/-! ### Documents -/

namespace Svg

theorem legible_style : Legible style := by
  -- line by line, as in `plain_style`
  unfold Legible
  delta style
  simp only [made_append]
  refine ⟨⟨⟨⟨⟨⟨⟨⟨?_, ?_⟩, ?_⟩, ?_⟩, ?_⟩, ?_⟩, ?_⟩, ?_⟩, ?_⟩ <;> decide +kernel

/-- What a document says is in its pieces. -/
theorem legible_pieces_iff (htext : ∀ x : F, Signs (Scalar.text x).toList) {s : Scene F}
    (config : Config F) (hids : ∀ e ∈ s.edges, Signs e.id.toList)
    (hpaths : ∀ l ∈ s.labels, Signs l.pathId.toList) :
    (∀ p ∈ pieces s config, (∀ a ∈ p.tag.attributes, Legible a.value) ∧ Legible p.text) ↔
      (∀ e ∈ s.edges, Legible e.kind.label) ∧ (∀ l ∈ s.labels, Legible l.text) ∧
        ∀ n ∈ s.nodes, Legible n.name := by
  have hclass : Legible "link " := Signs.legible (by decide)
  refine ⟨fun h => ⟨fun e he => ?_, fun l hl => ?_, fun n hn => ?_⟩, ?_⟩
  · have hpath := h _ (mem_pieces.mpr (.inr (.inr (.inl ⟨e, he, List.mem_cons_self⟩))))
    have hvalue := hpath.1 ⟨"class", "link " ++ e.kind.label⟩ (by simp)
    exact (made_append.mp hvalue).2
  · have hlabel := (h _ (mem_pieces.mpr (.inr (.inr (.inr (.inl
      ⟨l, hl, List.mem_cons_of_mem _ List.mem_cons_self⟩)))))).2
    rwa [layout, layout, String.append_empty] at hlabel
  · have hname := (h _ (mem_pieces.mpr (.inr (.inr (.inr (.inr (.inr
      ⟨n, hn, List.mem_cons_self⟩))))))).2
    rwa [layout, layout, String.append_empty] at hname
  · rintro ⟨hkinds, hlabels, hnames⟩ p hp
    refine ⟨fun a ha => ?_, ?_⟩
    · rcases value_cases isXmlChar_of_isSign (fun x => (htext x).legible) hids hpaths hp ha
        with hvalue | ⟨e, he, rfl⟩
      · exact hvalue
      · exact made_append.mpr ⟨hclass, hkinds e he⟩
    · rcases text_cases hp with hblank | ⟨-, l, hl, heq⟩ | ⟨-, n, hn, heq⟩
      · simp only [List.mem_cons, List.not_mem_nil, or_false] at hblank
        rcases hblank with heq | heq | heq
        · rw [heq]
          decide
        · rw [heq]
          decide
        · rw [heq]
          exact legible_style
      · rw [heq]
        exact hlabels l hl
      · rw [heq]
        exact hnames n hn

end Svg

/-- A document is legible exactly if what it says is. -/
theorem Scene.legible_svg_iff (htext : ∀ x : F, Signs (Scalar.text x).toList) (s : Scene F)
    (config : Config F) (hids : ∀ e ∈ s.edges, Signs e.id.toList)
    (hpaths : ∀ l ∈ s.labels, Signs l.pathId.toList) :
    Legible (s.svg config) ↔
      (∀ e ∈ s.contents.edges, Legible e.kind) ∧ (∀ l ∈ s.contents.labels, Legible l.text) ∧
        ∀ n ∈ s.contents.names, Legible n := by
  have hlayout := Svg.layout_svgTokens s config
  have hwritten : (s.svg config).toList = (Svg.pieces s config).flatMap Piece.written := by
    rw [Scene.svg, render, String.toList_ofList, written_eq_layout, hlayout]
    rfl
  have hnamed : ∀ p ∈ Svg.pieces s config, p.tag.WellNamed := fun p hp =>
    Svg.wellNamed_of_mem_outlines (Svg.outline_mem_outlines p hp)
  simp only [Scene.contents, List.forall_mem_map]
  rw [← Svg.legible_pieces_iff htext config hids hpaths, Legible, Made, hwritten,
    List.forall_mem_flatMap]
  exact forall₂_congr fun p hp => legible_written (hnamed p hp)

/-! ### Datasets -/

namespace Graph

/-- The document of a graph of a dataset is legible exactly if the names and types are. -/
theorem legible_svg_iff (htext : ∀ x : F, Signs (Scalar.text x).toList) {g : Graph F}
    {records : List Record} (h : g.shape = (ofRecords records : Graph F).shape)
    (viewport : Viewport F) (config drawn : Config F) :
    Legible ((g.tick viewport config).2.svg drawn) ↔
      ∀ r ∈ records, Legible r.source ∧ Legible r.target ∧ Legible r.kind := by
  obtain ⟨hids, hpaths⟩ := g.signs_ids_tick viewport config
  rw [Scene.legible_svg_iff htext _ _ hids hpaths, contents_tick h]
  have hnames : (∀ n ∈ namesOf records, Legible n) ↔
      ∀ r ∈ records, Legible r.source ∧ Legible r.target := by
    refine ⟨fun hall r hr => ?_, fun hall n hn => ?_⟩
    · exact ⟨hall _ (source_mem_namesOf hr), hall _ (target_mem_namesOf hr)⟩
    · obtain ⟨r, hr, rfl | rfl⟩ := mem_namesOf.mp hn
      · exact (hall r hr).1
      · exact (hall r hr).2
  have hkinds : (∀ r ∈ records, Legible r.kind) ↔
      ∀ k (h : k < records.length), Legible records[k].kind :=
    List.forall_mem_iff_forall_getElem
  simp only [forall_mem_mapIdx, ← hkinds, hnames]
  grind

/-- **The document of a dataset is legible exactly if its names and types are.**  Any
records can be those of a dataset, and of a graph of theirs, wherever its nodes are, the
document that a tick leads to has no characters but those of XML if and only if the names
and types of the records have no others: escaping has no reference for any of these. -/
theorem legible_svg_tick (records : List Record) :
    (∃ text, Dataset.read text = .ok records) ∧
    ∀ g : Graph Float32, g.shape = (ofRecords records : Graph Float32).shape →
      ∀ (viewport : Viewport Float32) (config drawn : Config Float32),
        Legible ((g.tick viewport config).2.svg drawn) ↔
          ∀ r ∈ records, Legible r.source ∧ Legible r.target ∧ Legible r.kind :=
  ⟨Dataset.exists_read records, fun _ h viewport config drawn =>
    legible_svg_iff Single.signs_text h viewport config drawn⟩

/-- Names with markup, letters of other scripts and a character beyond sixteen bits. -/
theorem legible_svg_tick_of_scripts :
    let records : List Record := [⟨"<ü>", "名 & 😀", "a\tb"⟩]
    let g : Graph Float32 :=
      ⟨#[⟨"<ü>", ⟨50, 60⟩, .zero, none⟩, ⟨"名 & 😀", ⟨200, 70⟩, .zero, none⟩],
        #[⟨0, 1, .other "a\tb", .straight, .zero⟩], true⟩
    g.shape = (ofRecords records : Graph Float32).shape ∧
      Legible ((g.tick ⟨300, 200⟩ .standard).2.svg .standard) := by
  intro records g
  have hshape : g.shape = (ofRecords records : Graph Float32).shape :=
    shape_eq_iff.mpr ⟨by decide +kernel, by rfl⟩
  exact ⟨hshape, ((legible_svg_tick records).2 g hshape _ _ _).mpr (by decide)⟩

/-- A control character that a dataset writes as an escape stands in the document as it is. -/
theorem not_legible_svg_of_control :
    let records : List Record := [⟨"a\x01", "b", "response"⟩]
    Dataset.read "[[\"a\\u0001\",\"b\",\"response\"]]" = .ok records ∧
      ¬ Legible
        (((ofRecords records : Graph Float32).tick ⟨300, 200⟩ .standard).2.svg .standard) := by
  intro records
  refine ⟨Command.eq_ok_of_toOption (by decide +kernel), ?_⟩
  rw [legible_svg_iff Single.signs_text rfl]
  decide

end Graph

end ForceDiagram
