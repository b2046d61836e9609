/-
ForceDiagram/Proofs/Text/Utf8.lean

Texts and their bytes.

The first piece of some bytes is a character exactly if they begin with the bytes
of that character (`piece_eq_some_iff`).  Both directions go through the digits of
its code, six bits each but for the first: a lead byte holds the first digit, says
how many follow and bounds the second one, and the bytes of a character are made of
the same digits.  So the strict reading accepts what encodes a text and nothing
else (`decode?_eq_some_iff`), and where it accepts, the forgiving one reads the same
(`decodeLossy_toUTF8`).
-/
import Mathlib.Data.List.Basic
import ForceDiagram.Text.Utf8

namespace ForceDiagram

namespace Utf8

open String (utf8EncodeChar)

/-! ### Bytes as digits -/

/-- The bytes that hold the digits from `low` to `high`. -/
def tails (low high : Nat) : UInt8 × UInt8 := (UInt8.ofNat (low + 0x80), UInt8.ofNat (high + 0x80))

theorem lead?_one : ∀ m < 0x80, lead? (UInt8.ofNat m) = some (m, []) := by decide

theorem lead?_tail : ∀ m < 66, lead? (UInt8.ofNat (m + 0x80)) = none := by decide

/-- Codes of two bytes begin above those of one. -/
theorem lead?_two : ∀ m < 30,
    lead? (UInt8.ofNat (m + 2 + 0xc0)) = some (m + 2, [tails 0 63]) := by decide

/-- Codes of three bytes begin above those of two, and leave out the surrogates. -/
theorem lead?_three : ∀ m < 16, lead? (UInt8.ofNat (m + 0xe0)) =
    some (m, [tails (if m = 0 then 32 else 0) (if m = 13 then 31 else 63), tails 0 63]) := by
  decide

/-- Codes of four bytes begin above those of three, and end with the last code. -/
theorem lead?_four : ∀ m < 5, lead? (UInt8.ofNat (m + 0xf0)) =
    some (m, [tails (if m = 0 then 16 else 0) (if m = 4 then 15 else 63), tails 0 63,
      tails 0 63]) := by decide

theorem lead?_beyond : ∀ m < 11, lead? (UInt8.ofNat (m + 0xf5)) = none := by decide

section

variable {bytes rest : List UInt8} {c : Char}

theorem follow_nil_iff {code n : Nat} :
    follow [] code bytes = (some n, rest) ↔ code = n ∧ bytes = rest := by
  simp [follow]

theorem toNat_tail {x : Nat} (hx : x ≤ 63) : (UInt8.ofNat (x + 0x80)).toNat = x + 0x80 :=
  UInt8.toNat_ofNat_of_lt' (by rw [UInt8.size]; omega)

/-- A byte that follows holds a digit. -/
theorem follow_tails_iff {low high code n : Nat} (hlow : low ≤ 63) (hhigh : high ≤ 63)
    {ranges : List (UInt8 × UInt8)} :
    follow (tails low high :: ranges) code bytes = (some n, rest) ↔
      ∃ x more, low ≤ x ∧ x ≤ high ∧ bytes = UInt8.ofNat (x + 0x80) :: more ∧
        follow ranges (code * 64 + x) more = (some n, rest) := by
  cases bytes with
  | nil => simp [follow]
  | cons b bytes =>
    have hwithin : (UInt8.ofNat (low + 0x80) ≤ b && b ≤ UInt8.ofNat (high + 0x80)) = true ↔
        low + 0x80 ≤ b.toNat ∧ b.toNat ≤ high + 0x80 := by
      rw [Bool.and_eq_true, decide_eq_true_eq, decide_eq_true_eq, UInt8.le_iff_toNat_le,
        UInt8.le_iff_toNat_le, toNat_tail hlow, toNat_tail hhigh]
    rw [tails, follow]
    constructor
    · intro h
      split at h
      · next hb =>
        obtain ⟨hlow, hhigh⟩ := hwithin.mp hb
        have hdigit : b.toNat % 64 = b.toNat - 0x80 := by omega
        have hbyte : b.toNat - 0x80 + 0x80 = b.toNat := by omega
        refine ⟨b.toNat - 0x80, bytes, by omega, by omega, ?_, hdigit ▸ h⟩
        rw [hbyte, UInt8.ofNat_toNat]
      · cases h
    · rintro ⟨x, more, hx, hx', h, hmore⟩
      obtain ⟨rfl, rfl⟩ := List.cons.inj h
      have hbyte : (UInt8.ofNat (x + 0x80)).toNat = x + 0x80 := toNat_tail (by omega)
      have hdigit : (x + 0x80) % 64 = x := by omega
      rwa [if_pos (hwithin.mpr (by omega)), hbyte, hdigit]

theorem piece_eq_some_iff_follow {b : UInt8} {bits : Nat} {ranges : List (UInt8 × UInt8)}
    (hlead : lead? b = some (bits, ranges)) :
    piece b bytes = (some c, rest) ↔
      ∃ n, follow ranges bits bytes = (some n, rest) ∧ Char.ofNat n = c := by
  rw [piece, hlead]
  constructor
  · intro h
    obtain ⟨hcode, hrest⟩ := Prod.mk.inj h
    obtain ⟨n, hn, hc⟩ := Option.map_eq_some_iff.mp hcode
    exact ⟨n, Prod.ext hn hrest, hc⟩
  · rintro ⟨n, hn, rfl⟩
    simp only [hn, Option.map_some]

end

/-! ### Characters as digits -/

/-- A code is that of a character unless it is a surrogate. -/
theorem toNat_ofNat {n : Nat} (h : n < 0xd800 ∨ 0xdfff < n ∧ n < 0x110000) :
    (Char.ofNat n).val.toNat = n := by
  rw [Char.ofNat, dif_pos h]
  rfl

theorem encoded_one {m : Nat} (hm : m < 0x80) :
    utf8EncodeChar (Char.ofNat m) = [UInt8.ofNat m] := by
  have hn := toNat_ofNat (n := m) (by omega)
  simp only [utf8EncodeChar, hn]
  rw [if_pos (by omega)]

theorem encoded_two {m x : Nat} (hm : m < 30) (hx : x ≤ 63) :
    utf8EncodeChar (Char.ofNat ((m + 2) * 64 + x)) =
      [UInt8.ofNat (m + 2 + 0xc0), UInt8.ofNat (x + 0x80)] := by
  have hn := toNat_ofNat (n := (m + 2) * 64 + x) (by omega)
  have hfirst : ((m + 2) * 64 + x) / 64 % 0x20 = m + 2 := by omega
  have hsecond : ((m + 2) * 64 + x) % 64 = x := by omega
  simp only [utf8EncodeChar, hn]
  rw [if_neg (by omega), if_pos (by omega), hfirst, hsecond]

theorem encoded_three {m x y : Nat} (hm : m < 16) (hx : x ≤ 63) (hy : y ≤ 63)
    (hlow : m = 0 → 32 ≤ x) (hhigh : m = 13 → x ≤ 31) :
    utf8EncodeChar (Char.ofNat ((m * 64 + x) * 64 + y)) =
      [UInt8.ofNat (m + 0xe0), UInt8.ofNat (x + 0x80), UInt8.ofNat (y + 0x80)] := by
  have hn := toNat_ofNat (n := (m * 64 + x) * 64 + y) (by omega)
  have hfirst : ((m * 64 + x) * 64 + y) / 4096 % 0x10 = m := by omega
  have hsecond : ((m * 64 + x) * 64 + y) / 64 % 0x40 = x := by omega
  have hthird : ((m * 64 + x) * 64 + y) % 64 = y := by omega
  simp only [utf8EncodeChar, hn]
  rw [if_neg (by omega), if_neg (by omega), if_pos (by omega), hfirst, hsecond, hthird]

theorem encoded_four {m x y z : Nat} (hm : m < 5) (hx : x ≤ 63) (hy : y ≤ 63) (hz : z ≤ 63)
    (hlow : m = 0 → 16 ≤ x) (hhigh : m = 4 → x ≤ 15) :
    utf8EncodeChar (Char.ofNat (((m * 64 + x) * 64 + y) * 64 + z)) =
      [UInt8.ofNat (m + 0xf0), UInt8.ofNat (x + 0x80), UInt8.ofNat (y + 0x80),
        UInt8.ofNat (z + 0x80)] := by
  have hn := toNat_ofNat (n := ((m * 64 + x) * 64 + y) * 64 + z) (by omega)
  have hfirst : (((m * 64 + x) * 64 + y) * 64 + z) / 262144 % 0x08 = m := by omega
  have hsecond : (((m * 64 + x) * 64 + y) * 64 + z) / 4096 % 0x40 = x := by omega
  have hthird : (((m * 64 + x) * 64 + y) * 64 + z) / 64 % 0x40 = y := by omega
  have hfourth : (((m * 64 + x) * 64 + y) * 64 + z) % 64 = z := by omega
  simp only [utf8EncodeChar, hn]
  rw [if_neg (by omega), if_neg (by omega), if_neg (by omega), hfirst, hsecond, hthird, hfourth]

/-! ### Pieces -/

section

variable {b : UInt8} {bytes rest : List UInt8} {c : Char}

/-- What is cut off as a character are its bytes. -/
theorem encoded_of_piece (h : piece b bytes = (some c, rest)) :
    b :: bytes = utf8EncodeChar c ++ rest := by
  -- a lead byte says how many bytes follow, and each of them is a digit of the code
  obtain ⟨n, hn, rfl⟩ : ∃ n < 0x100, UInt8.ofNat n = b := ⟨b.toNat, b.toNat_lt, UInt8.ofNat_toNat⟩
  rcases Nat.lt_or_ge n 0x80 with hone | hone
  · obtain ⟨_, hfollow, rfl⟩ := (piece_eq_some_iff_follow (lead?_one n hone)).mp h
    obtain ⟨rfl, rfl⟩ := follow_nil_iff.mp hfollow
    rw [encoded_one hone]
    rfl
  rcases Nat.lt_or_ge n 0xc2 with htail | htail
  · obtain ⟨m, rfl⟩ := Nat.exists_eq_add_of_le' hone
    rw [piece, lead?_tail m (by omega)] at h
    cases h
  rcases Nat.lt_or_ge n 0xe0 with htwo | htwo
  · obtain ⟨m, rfl⟩ := Nat.exists_eq_add_of_le' htail
    obtain ⟨_, hfollow, rfl⟩ := (piece_eq_some_iff_follow (lead?_two m (by omega))).mp h
    obtain ⟨x, _, -, hx, rfl, hend⟩ := (follow_tails_iff (by omega) (by omega)).mp hfollow
    obtain ⟨rfl, rfl⟩ := follow_nil_iff.mp hend
    rw [encoded_two (by omega) hx]
    rfl
  rcases Nat.lt_or_ge n 0xf0 with hthree | hthree
  · obtain ⟨m, rfl⟩ := Nat.exists_eq_add_of_le' htwo
    obtain ⟨_, hfollow, rfl⟩ := (piece_eq_some_iff_follow (lead?_three m (by omega))).mp h
    obtain ⟨x, _, hlow, hhigh, rfl, hsecond⟩ :=
      (follow_tails_iff (by split <;> omega) (by split <;> omega)).mp hfollow
    obtain ⟨y, _, -, hy, rfl, hend⟩ := (follow_tails_iff (by omega) (by omega)).mp hsecond
    obtain ⟨rfl, rfl⟩ := follow_nil_iff.mp hend
    rw [encoded_three (by omega) (by split at hhigh <;> omega) hy (by split at hlow <;> omega)
      (by split at hhigh <;> omega)]
    rfl
  rcases Nat.lt_or_ge n 0xf5 with hfour | hfour
  · obtain ⟨m, rfl⟩ := Nat.exists_eq_add_of_le' hthree
    obtain ⟨_, hfollow, rfl⟩ := (piece_eq_some_iff_follow (lead?_four m (by omega))).mp h
    obtain ⟨x, _, hlow, hhigh, rfl, hsecond⟩ :=
      (follow_tails_iff (by split <;> omega) (by split <;> omega)).mp hfollow
    obtain ⟨y, _, -, hy, rfl, hthird⟩ := (follow_tails_iff (by omega) (by omega)).mp hsecond
    obtain ⟨z, _, -, hz, rfl, hend⟩ := (follow_tails_iff (by omega) (by omega)).mp hthird
    obtain ⟨rfl, rfl⟩ := follow_nil_iff.mp hend
    rw [encoded_four (by omega) (by split at hhigh <;> omega) hy hz
      (by split at hlow <;> omega) (by split at hhigh <;> omega)]
    rfl
  · obtain ⟨m, rfl⟩ := Nat.exists_eq_add_of_le' hfour
    rw [piece, lead?_beyond m (by omega)] at h
    cases h

/-- The bytes of a character are cut off, whatever comes after them. -/
theorem piece_of_encoded (h : b :: bytes = utf8EncodeChar c ++ rest) :
    piece b bytes = (some c, rest) := by
  -- a code says how many bytes it takes, and its digits keep to the bounds of the lead byte
  obtain ⟨n, hvalid, rfl⟩ : ∃ n, (n < 0xd800 ∨ 0xdfff < n ∧ n < 0x110000) ∧ Char.ofNat n = c :=
    ⟨c.val.toNat, c.valid, Char.ofNat_toNat c⟩
  rcases Nat.lt_or_ge n 0x80 with hone | hone
  · rw [encoded_one hone] at h
    obtain ⟨rfl, rfl⟩ := List.cons.inj h
    exact (piece_eq_some_iff_follow (lead?_one n hone)).mpr
      ⟨_, follow_nil_iff.mpr ⟨rfl, rfl⟩, rfl⟩
  rcases Nat.lt_or_ge n 0x800 with htwo | htwo
  · obtain ⟨m, x, hm, hx, rfl⟩ : ∃ m x, m < 30 ∧ x ≤ 63 ∧ n = (m + 2) * 64 + x :=
      ⟨n / 64 - 2, n % 64, by omega, by omega, by omega⟩
    rw [encoded_two hm hx] at h
    obtain ⟨rfl, rfl⟩ := List.cons.inj h
    refine (piece_eq_some_iff_follow (lead?_two m hm)).mpr ⟨_, ?_, rfl⟩
    refine (follow_tails_iff (by omega) (by omega)).mpr ⟨x, _, Nat.zero_le x, hx, rfl, ?_⟩
    exact follow_nil_iff.mpr ⟨rfl, rfl⟩
  rcases Nat.lt_or_ge n 0x10000 with hthree | hthree
  · obtain ⟨m, x, y, hm, hx, hy, rfl⟩ :
        ∃ m x y, m < 16 ∧ x ≤ 63 ∧ y ≤ 63 ∧ n = (m * 64 + x) * 64 + y :=
      ⟨n / 4096, n / 64 % 64, n % 64, by omega, by omega, by omega, by omega⟩
    rw [encoded_three hm hx hy (by omega) (by omega)] at h
    obtain ⟨rfl, rfl⟩ := List.cons.inj h
    refine (piece_eq_some_iff_follow (lead?_three m hm)).mpr ⟨_, ?_, rfl⟩
    refine (follow_tails_iff (by split <;> omega) (by split <;> omega)).mpr
      ⟨x, _, by split <;> omega, by split <;> omega, rfl, ?_⟩
    refine (follow_tails_iff (by omega) (by omega)).mpr ⟨y, _, Nat.zero_le y, hy, rfl, ?_⟩
    exact follow_nil_iff.mpr ⟨rfl, rfl⟩
  · obtain ⟨m, x, y, z, hm, hx, hy, hz, rfl⟩ : ∃ m x y z, m < 5 ∧ x ≤ 63 ∧ y ≤ 63 ∧ z ≤ 63 ∧
        n = ((m * 64 + x) * 64 + y) * 64 + z :=
      ⟨n / 262144, n / 4096 % 64, n / 64 % 64, n % 64, by omega, by omega, by omega, by omega,
        by omega⟩
    rw [encoded_four hm hx hy hz (by omega) (by omega)] at h
    obtain ⟨rfl, rfl⟩ := List.cons.inj h
    refine (piece_eq_some_iff_follow (lead?_four m hm)).mpr ⟨_, ?_, rfl⟩
    refine (follow_tails_iff (by split <;> omega) (by split <;> omega)).mpr
      ⟨x, _, by split <;> omega, by split <;> omega, rfl, ?_⟩
    refine (follow_tails_iff (by omega) (by omega)).mpr ⟨y, _, Nat.zero_le y, hy, rfl, ?_⟩
    refine (follow_tails_iff (by omega) (by omega)).mpr ⟨z, _, Nat.zero_le z, hz, rfl, ?_⟩
    exact follow_nil_iff.mpr ⟨rfl, rfl⟩

/-- The first piece is a character exactly if the bytes begin with those of the character. -/
theorem piece_eq_some_iff :
    piece b bytes = (some c, rest) ↔ b :: bytes = utf8EncodeChar c ++ rest :=
  ⟨encoded_of_piece, piece_of_encoded⟩

end

/-! ### Texts -/

theorem pieces_eq_map_some_iff {bytes : List UInt8} {chars : List Char} :
    pieces bytes = chars.map some ↔ bytes = chars.flatMap utf8EncodeChar := by
  induction chars generalizing bytes with
  | nil => cases bytes <;> simp [pieces]
  | cons c chars ih =>
    cases bytes with
    | nil => simp [pieces, String.utf8EncodeChar_ne_nil]
    | cons b bytes =>
      rw [pieces, List.map_cons, List.cons.injEq, ih, List.flatMap_cons, ← piece_eq_some_iff,
        Prod.ext_iff]

theorem toList_loop (bytes : ByteArray) (i : Nat) (passed : List UInt8) :
    ByteArray.toList.loop bytes i passed = passed.reverse ++ bytes.data.toList.drop i := by
  fun_induction ByteArray.toList.loop bytes i passed with
  | case1 i passed h ih =>
    have hi : i < bytes.data.toList.length := by simpa using h
    rw [ih, List.drop_eq_getElem_cons hi]
    simp [ByteArray.get!, h]
  | case2 i passed h =>
    rw [List.drop_eq_nil_of_le (by simpa using h), List.append_nil]

theorem toList_toUTF8 (text : String) :
    text.toUTF8.toList = text.toList.flatMap utf8EncodeChar := by
  have hbytes : text.toUTF8 = text.toList.utf8Encode := by
    rw [String.toUTF8_eq_toByteArray, String.utf8Encode_toList]
  rw [hbytes, ByteArray.toList, toList_loop, List.utf8Encode, List.toList_data_toByteArray]
  rfl

theorem mapM_id_eq_some_iff {pieces : List (Option Char)} {chars : List Char} :
    pieces.mapM id = some chars ↔ pieces = chars.map some := by
  induction pieces generalizing chars with
  | nil => cases chars <;> simp
  | cons piece pieces ih =>
    obtain - | c := piece
    · cases chars <;> simp
    · cases chars <;> simp [Option.bind_eq_some_iff, ih, and_comm]

/-- **Bytes are read strictly as the text that they encode.** -/
theorem decode?_eq_some_iff {bytes : List UInt8} {text : String} :
    decode? bytes = some text ↔ text.toUTF8.toList = bytes := by
  rw [toList_toUTF8, eq_comm (a := text.toList.flatMap _), ← pieces_eq_map_some_iff,
    ← mapM_id_eq_some_iff, decode?, Option.map_eq_some_iff]
  constructor
  · rintro ⟨chars, hchars, rfl⟩
    rwa [String.toList_ofList]
  · exact fun h => ⟨text.toList, h, String.ofList_toList⟩

theorem decode?_eq_none_iff {bytes : List UInt8} :
    decode? bytes = none ↔ ∀ text : String, text.toUTF8.toList ≠ bytes := by
  rw [Option.eq_none_iff_forall_ne_some]
  exact forall_congr' fun text => decode?_eq_some_iff.not

/-- The forgiving reading is the same where there is nothing to forgive. -/
theorem decodeLossy_toUTF8 (text : String) : decodeLossy text.toUTF8.toList = text := by
  have hpieces : pieces text.toUTF8.toList = text.toList.map some :=
    pieces_eq_map_some_iff.mpr (toList_toUTF8 text)
  have hlossy : (pieces text.toUTF8.toList).map (·.getD '\ufffd') = text.toList := by
    rw [hpieces, List.map_map]
    exact List.map_id _
  rw [decodeLossy, hlossy, String.ofList_toList]

end Utf8

end ForceDiagram
