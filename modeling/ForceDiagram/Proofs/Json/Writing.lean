/-
ForceDiagram/Proofs/Json/Writing.lean

What can be written: every string, and every list of items that can.

Characters below the space have no short escape in general and may not stand as they are;
these are why the digits of codes are needed.
-/
import ForceDiagram.Json.Grammar
import Mathlib.Data.Bool.AllAny
import Mathlib.Logic.Basic
import Mathlib.Tactic.Choose

namespace ForceDiagram

namespace Json

theorem Padded.of_writes {writes : List Char → Prop} {text : List Char} (h : writes text) :
    Padded writes text :=
  ⟨[], text, [], blanks_nil, h, blanks_nil, (List.append_nil text).symm⟩

/-! ### Strings -/

theorem exists_isHexDigit {value : Nat} (h : value < 16) : ∃ c, IsHexDigit value c :=
  ⟨"0123456789abcdef".toList[value], .inl (List.getElem?_eq_getElem h)⟩

theorem writesCode_of_eq {a b c d n : Nat} {w x y z : Char} (ha : IsHexDigit a w)
    (hb : IsHexDigit b x) (hc : IsHexDigit c y) (hd : IsHexDigit d z)
    (hn : ((a * 16 + b) * 16 + c) * 16 + d = n) : WritesCode n [w, x, y, z] :=
  hn ▸ .mk ha hb hc hd

theorem exists_writesCode {n : Nat} (h : n < 0x10000) : ∃ text, WritesCode n text := by
  obtain ⟨w, hw⟩ := exists_isHexDigit (show n / 0x1000 < 16 by omega)
  obtain ⟨x, hx⟩ := exists_isHexDigit (show n / 0x100 % 16 < 16 by omega)
  obtain ⟨y, hy⟩ := exists_isHexDigit (show n / 0x10 % 16 < 16 by omega)
  obtain ⟨z, hz⟩ := exists_isHexDigit (show n % 16 < 16 by omega)
  exact ⟨[w, x, y, z], writesCode_of_eq hw hx hy hz (by omega)⟩

theorem exists_writesChar (c : Char) : ∃ text, WritesChar c text := by
  by_cases hcontrol : 0x20 ≤ c.toNat
  · rcases eq_or_ne c '"' with rfl | hquote
    · exact ⟨['\\', '"'], .short (by decide)⟩
    rcases eq_or_ne c '\\' with rfl | hescape
    · exact ⟨['\\', '\\'], .short (by decide)⟩
    exact ⟨[c], .literal hquote hescape hcontrol⟩
  · obtain ⟨digits, hdigits⟩ := exists_writesCode (show c.toNat < 0x10000 by omega)
    exact ⟨'\\' :: 'u' :: digits, .code hdigits⟩

/-- A string, each of whose characters is written in a way of its own. -/
theorem writesString_flatMap {write : Char → List Char} {s : String}
    (h : ∀ c ∈ s.toList, WritesChar c (write c)) :
    WritesString s ('"' :: s.toList.flatMap write ++ ['"']) := by
  have hchars : ∀ cs : List Char, (∀ c ∈ cs, WritesChar c (write c)) →
      WritesChars cs (cs.flatMap write) := by
    intro cs h
    induction cs with
    | nil => exact .nil
    | cons c cs ih =>
      exact .cons (h c List.mem_cons_self) (ih fun d hd => h d (List.mem_cons_of_mem c hd))
  exact .mk (hchars s.toList h)

theorem exists_writesString (s : String) : ∃ text, WritesString s text := by
  choose write hwrite using exists_writesChar
  exact ⟨_, writesString_flatMap fun c _ => hwrite c⟩

/-- A string without characters that need an escape. -/
theorem writesString_literal {s : String}
    (h : s.toList.all fun c => c ≠ '"' ∧ c ≠ '\\' ∧ 0x20 ≤ c.toNat) :
    WritesString s ('"' :: s.toList ++ ['"']) := by
  have hwrites := writesString_flatMap (s := s) fun c hc =>
    let ⟨hquote, hescape, hcontrol⟩ := List.all_iff_forall_prop.mp h c hc
    WritesChar.literal hquote hescape hcontrol
  rwa [List.flatMap_singleton'] at hwrites

/-! ### Values -/

theorem Writes.flat {json : Json} {text : List Char} (h : WritesFlat json text) :
    ∀ depth, Writes depth json text
  | 0 => h
  | _ + 1 => .inl h

theorem exists_writesList {α : Type} {writes : α → List Char → Prop} {as : List α}
    (hne : as ≠ []) (h : ∀ a ∈ as, ∃ text, writes a text) : ∃ text, WritesList writes as text := by
  induction as with
  | nil => exact absurd rfl hne
  | cons a as ih =>
    obtain ⟨text, ha⟩ := h a List.mem_cons_self
    rcases eq_or_ne as [] with rfl | hne
    · exact ⟨text, .last (.of_writes ha)⟩
    · obtain ⟨rest, hrest⟩ := ih hne fun b hb => h b (List.mem_cons_of_mem a hb)
      exact ⟨text ++ ',' :: rest, .cons (.of_writes ha) hrest⟩

/-- An array can be written if its entries can. -/
theorem exists_writes_array {depth : Nat} {es : List Json}
    (h : ∀ e ∈ es, ∃ text, Writes depth e text) : ∃ text, Writes (depth + 1) (.array es) text := by
  rcases eq_or_ne es [] with rfl | hne
  · exact ⟨_, .inr (.emptyArray blanks_nil)⟩
  · obtain ⟨text, htext⟩ := exists_writesList hne h
    exact ⟨'[' :: text ++ [']'], .inr (.array htext)⟩

theorem exists_writes_string (depth : Nat) (s : String) :
    ∃ text, Writes depth (.string s) text := by
  obtain ⟨text, h⟩ := exists_writesString s
  exact ⟨text, .flat (.string h) depth⟩

end Json

end ForceDiagram
