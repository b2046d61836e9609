/-
ForceDiagram/Proofs/Json/Strings.lean

Every way of writing a string is read.

Each way of writing a character takes the reader of strings one character further, whatever
stands behind it (`characters_writesChar`): a literal and a short escape at once, hexadecimal
digits by their value, and a pair of surrogates by putting its two halves together again.
A string is its characters up to the quote (`takeString_writes`).
-/
import ForceDiagram.Json.Grammar
import ForceDiagram.Json.Strings

namespace ForceDiagram

namespace Json

/-- A reader takes a value off the front of a text and leaves the rest. -/
def Takes {α : Type} (reader : Reader α) (text : List Char) (value : α) (rest : List Char) :
    Prop :=
  ∃ shorter, reader text = .ok ⟨value, rest, shorter⟩

/-! ### Hexadecimal digits -/

theorem hexValue?_of_isHexDigit {value : Nat} {c : Char} (h : IsHexDigit value c) :
    hexValue? c = some value := by
  have hall : ∀ v < 16, hexValue? ("0123456789abcdef".toList.getD v ' ') = some v ∧
      hexValue? ("0123456789ABCDEF".toList.getD v ' ') = some v := by decide
  rcases h with h | h
  all_goals
    have hlt : value < 16 := (List.getElem?_eq_some_iff.mp h).1
    have hvalue := hall value hlt
    simp only [List.getD_eq_getElem?_getD, h, Option.getD_some] at hvalue
  · exact hvalue.1
  · exact hvalue.2

theorem length_le_byteCount (text : List Char) : text.length ≤ byteCount text := by
  have hfrom : ∀ count : Nat, count + text.length ≤
      text.foldl (fun count c => count + c.utf8Size) count := by
    induction text with
    | nil => exact Nat.le_refl
    | cons c text ih =>
      intro count
      have hsize := c.utf8Size_pos
      have hrest := ih (count + c.utf8Size)
      rw [List.foldl_cons, List.length_cons]
      omega
  have hzero := hfrom 0
  rwa [Nat.zero_add] at hzero

/-- Four digits are read by their value. -/
theorem hexCode_writes {code : Nat} {digits : List Char} (h : WritesCode code digits)
    (rest : List Char) : Takes hexCode (digits ++ rest) code rest := by
  obtain ⟨ha, hb, hc, hd⟩ := h
  next a b c d w x y z =>
  have hdigits : [w, x, y, z].mapM hexValue? = some [a, b, c, d] := by
    simp [hexValue?_of_isHexDigit ha, hexValue?_of_isHexDigit hb, hexValue?_of_isHexDigit hc,
      hexValue?_of_isHexDigit hd]
  have hlong : ¬ byteCount (w :: x :: y :: z :: rest) < 4 := by
    have hlength := length_le_byteCount (w :: x :: y :: z :: rest)
    simp only [List.length_cons] at hlength
    omega
  refine ⟨by simp only [List.length_append, List.length_cons]; omega, ?_⟩
  simp only [hexCode, List.cons_append, List.nil_append, if_neg hlong, hdigits, List.foldl_cons,
    List.foldl_nil, Nat.zero_mul, Nat.zero_add]

/-! ### Escapes -/

/-- No character has the code of a surrogate, and none lies behind the last code. -/
theorem toNat_bounds (c : Char) :
    isTrailing c.toNat = false ∧ isLeading c.toNat = false ∧ c.toNat < 0x110000 := by
  have hvalid : c.toNat < 0xd800 ∨ 0xdfff < c.toNat ∧ c.toNat < 0x110000 := c.valid
  simp only [isTrailing, isLeading, Bool.and_eq_false_iff, decide_eq_false_iff_not]
  omega

theorem escape_short {letter c : Char} (h : (letter, c) ∈ shortEscapes) (rest : List Char) :
    Takes escape (letter :: rest) c rest := by
  simp only [shortEscapes, List.mem_cons, Prod.mk.injEq, List.not_mem_nil, or_false] at h
  rcases h with ⟨rfl, rfl⟩ | ⟨rfl, rfl⟩ | ⟨rfl, rfl⟩ | ⟨rfl, rfl⟩ | ⟨rfl, rfl⟩ | ⟨rfl, rfl⟩ |
    ⟨rfl, rfl⟩ | ⟨rfl, rfl⟩
  all_goals exact ⟨Nat.lt_succ_self _, rfl⟩

theorem escape_code {c : Char} {digits : List Char} (h : WritesCode c.toNat digits)
    (rest : List Char) : Takes escape ('u' :: (digits ++ rest)) c rest := by
  obtain ⟨shorter, hread⟩ := hexCode_writes h rest
  obtain ⟨htrailing, hleading, -⟩ := toNat_bounds c
  refine ⟨Nat.lt_succ_of_lt shorter, ?_⟩
  simp only [escape, hread, bind, Except.bind, htrailing, hleading]
  simp [pure, Except.pure]

theorem trailingCode_writes {code : Nat} {digits : List Char} (h : WritesCode code digits)
    (hcode : isTrailing code = true) (rest : List Char) :
    Takes trailingCode ('\\' :: 'u' :: (digits ++ rest)) code rest := by
  obtain ⟨shorter, hread⟩ := hexCode_writes h rest
  refine ⟨Nat.lt_succ_of_lt (Nat.lt_succ_of_lt shorter), ?_⟩
  simp only [trailingCode, hread, bind, Except.bind, hcode]
  simp [pure, Except.pure]

/-- The two halves of a character beyond sixteen bits make it up again. -/
theorem ofPair_halves {c : Char} (hbeyond : 0x10000 ≤ c.toNat) :
    ofPair (0xd800 + (c.toNat - 0x10000) / 0x400) (0xdc00 + (c.toNat - 0x10000) % 0x400) = c := by
  have hsum : 0x10000 + (0xd800 + (c.toNat - 0x10000) / 0x400 - 0xd800) * 0x400 +
      (0xdc00 + (c.toNat - 0x10000) % 0x400 - 0xdc00) = c.toNat := by omega
  rw [ofPair, hsum, Char.ofNat_toNat]

theorem escape_pair {c : Char} {leading trailing : List Char} (hbeyond : 0x10000 ≤ c.toNat)
    (hleading : WritesCode (0xd800 + (c.toNat - 0x10000) / 0x400) leading)
    (htrailing : WritesCode (0xdc00 + (c.toNat - 0x10000) % 0x400) trailing) (rest : List Char) :
    Takes escape ('u' :: (leading ++ '\\' :: 'u' :: (trailing ++ rest))) c rest := by
  obtain ⟨-, -, hlast⟩ := toNat_bounds c
  have hfirst : isTrailing (0xd800 + (c.toNat - 0x10000) / 0x400) = false ∧
      isLeading (0xd800 + (c.toNat - 0x10000) / 0x400) = true := by
    simp only [isTrailing, isLeading, Bool.and_eq_false_iff, Bool.and_eq_true,
      decide_eq_false_iff_not, decide_eq_true_iff]
    omega
  have hsecond : isTrailing (0xdc00 + (c.toNat - 0x10000) % 0x400) = true := by
    simp only [isTrailing, Bool.and_eq_true, decide_eq_true_iff]
    omega
  obtain ⟨shorter, hread⟩ :=
    hexCode_writes hleading ('\\' :: 'u' :: (trailing ++ rest))
  obtain ⟨shorter', hread'⟩ := trailingCode_writes htrailing hsecond rest
  refine ⟨Nat.lt_succ_of_lt (Nat.lt_trans shorter' shorter), ?_⟩
  simp only [escape, hread, bind, Except.bind, hfirst, hread', ofPair_halves hbeyond]
  simp [pure, Except.pure]

/-! ### Strings -/

/-- Every way of writing a character is read as that character. -/
theorem characters_writesChar {c : Char} {written : List Char} (h : WritesChar c written)
    (read rest : List Char) : characters read (written ++ rest) = characters (c :: read) rest := by
  have hescape : ∀ {text}, Takes escape text c rest →
      characters read ('\\' :: text) = characters (c :: read) rest := by
    rintro text ⟨shorter, htake⟩
    rw [characters, if_neg (by decide), if_pos rfl, htake]
  cases h with
  | literal hquote hbackslash hcontrol =>
    rw [List.singleton_append, characters, if_neg hquote, if_neg hbackslash,
      if_neg (Nat.not_lt.mpr hcontrol)]
  | short h => exact hescape (escape_short h rest)
  | code h => exact hescape (escape_code h rest)
  | pair hbeyond hleading htrailing =>
    rw [List.cons_append, List.cons_append, List.append_assoc]
    exact hescape (escape_pair hbeyond hleading htrailing rest)

theorem characters_writesChars {cs written : List Char} (h : WritesChars cs written)
    (read rest : List Char) :
    characters read (written ++ '"' :: rest) = .ok (String.ofList (read.reverse ++ cs), rest) := by
  induction h generalizing read with
  | nil => rw [List.nil_append, characters, if_pos rfl, List.append_nil]
  | cons hc _ ih =>
    rw [List.append_assoc, characters_writesChar hc, ih, List.reverse_cons, List.append_assoc]
    rfl

theorem takeString_of_characters {text : List Char} {s : String} {rest : List Char}
    (h : characters [] text = .ok (s, rest)) : Takes takeString text s rest := by
  refine ⟨characters_shorter h, ?_⟩
  unfold takeString
  split
  · next fault hfault =>
    rw [h] at hfault
    cases hfault
  · next s' rest' hread =>
    obtain ⟨rfl, rfl⟩ := Prod.mk.inj (Except.ok.inj (h.symm.trans hread))
    rfl

/-- **Every way of writing a string is read.** -/
theorem takeString_writes {s : String} {text : List Char} (h : WritesString s text)
    (rest : List Char) :
    ∃ inside, text = '"' :: inside ∧ Takes takeString (inside ++ rest) s rest := by
  obtain ⟨hwritten⟩ := h
  next written =>
  refine ⟨written ++ ['"'], rfl, takeString_of_characters ?_⟩
  have hread := characters_writesChars hwritten [] rest
  rw [List.append_assoc, List.singleton_append, hread, List.reverse_nil, List.nil_append,
    String.ofList_toList]

end Json

end ForceDiagram
