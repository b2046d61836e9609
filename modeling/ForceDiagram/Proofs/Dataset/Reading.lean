/-
ForceDiagram/Proofs/Dataset/Reading.lean

Every text that stands for a list of records is read as that list.

Of a text only the value is needed that it is parsed to (`Json.parse_writes`); the rest is
about values.  A member that stands once is the last of its name, so that looking it up
finds it, whatever stands around it.

Main results: a text that stands for records is read as these records (`read_of_denotes`),
and there is such a text for any records (`exists_denotes`).
-/
import ForceDiagram.Dataset.Denoting
import ForceDiagram.Dataset.Reading
import ForceDiagram.Proofs.Json.Reader
import ForceDiagram.Proofs.Json.Writing

namespace ForceDiagram

/-! ### Members -/

theorem Json.lookup?_of_last {name : String} {before after : List (String × Json)}
    (hafter : ∀ m ∈ after, m.1 ≠ name) (json : Json) :
    lookup? name (before ++ (name, json) :: after) = some json := by
  have hnone : after.reverse.find? (fun m => m.1 == name) = none :=
    List.find?_eq_none.mpr fun m hm => by simpa using hafter m (List.mem_reverse.mp hm)
  simp [lookup?, List.find?_append, hnone]

theorem Json.lookup?_of_once {name : String} {members : List (String × Json)} {json : Json}
    (honce : members.filter (fun m => m.1 == name) = [(name, json)]) :
    lookup? name members = some json := by
  rw [lookup?, ← List.head?_filter, List.filter_reverse, honce]
  rfl

/-! ### Records -/

namespace Record

theorem fieldOf_of_once (field : Field) {members : List (String × Json)} {s : String}
    (honce : members.filter (fun m => m.1 == field.name) = [(field.name, .string s)]) :
    fieldOf members field = .ok (some s) := by
  rw [fieldOf, Json.lookup?_of_once honce]
  rfl

theorem ofJson_of_isWritten {r : Record} {json : Json} (h : r.IsWritten json) :
    ofJson json = .ok r := by
  cases h with
  | entries => rfl
  | members hsource htarget hkind =>
    next ms =>
    have hsource := fieldOf_of_once .source hsource
    have htarget := fieldOf_of_once .target htarget
    have hkind := fieldOf_of_once .kind hkind
    simp only [ofJson, ofMembers, hsource, htarget, hkind, bind, Except.bind]
    rfl

end Record

/-! ### Datasets -/

namespace Dataset

theorem recordsFrom_of_isWritten {records : List Record} {es : List Json}
    (h : List.Forall₂ Record.IsWritten records es) (index : Nat) :
    recordsFrom index es = .ok records := by
  induction h generalizing index with
  | nil => rfl
  | cons hr hrs ih =>
    rw [recordsFrom, Record.ofJson_of_isWritten hr]
    simp only [ih, bind, Except.bind, pure, Except.pure]

theorem ofJson_of_isWritten {records : List Record} {json : Json} (h : IsWritten records json) :
    ofJson json = .ok records := by
  cases h with
  | bare h => exact recordsFrom_of_isWritten h 0
  | links hlast h =>
    rw [ofJson, entriesOf, Json.lookup?_of_last hlast]
    exact recordsFrom_of_isWritten h 0

/-- A text that stands for a list of records is read as that list. -/
theorem read_of_denotes {text : String} {records : List Record}
    (h : Denotes text.toList records) : read text = .ok records := by
  obtain ⟨json, hrecords, htext⟩ := h
  have hparse := Json.parse_writes htext
  rw [read, hparse]
  exact ofJson_of_isWritten hrecords

open Json in
/-- Two members named `links`, of which the first is no array; a record with escapes of every
kind and a further member, and one without; blanks before and behind tokens. -/
theorem read_of_denotes_links :
    read ("\x7b\"links\":7 ,\"links\" :[\x7b\"type\":\"\\n\",\"note\":[null],\"target\":\"\\u00fC\","
      ++ "\"source\":\"\\ud83d\\uDE00\"\x7d,\t[\"a\", \"b\",\"c\"]]\x7d\n") =
      .ok [⟨"😀", "ü", "\n"⟩, ⟨"a", "b", "c"⟩] := by
  have hblank : ∀ c, isBlank c = true → Blanks [c] := fun c hc d hd =>
    List.mem_singleton.mp hd ▸ hc
  -- the strings of the first record
  have hcode : WritesCode 'ü'.toNat ['0', '0', 'f', 'C'] :=
    writesCode_of_eq (a := 0) (b := 0) (c := 15) (d := 12)
      (.inl rfl) (.inl rfl) (.inl rfl) (.inr rfl) rfl
  have hleading : WritesCode 0xd83d ['d', '8', '3', 'd'] :=
    writesCode_of_eq (a := 13) (b := 8) (c := 3) (d := 13)
      (.inl rfl) (.inl rfl) (.inl rfl) (.inl rfl) rfl
  have htrailing : WritesCode 0xde00 ['D', 'E', '0', '0'] :=
    writesCode_of_eq (a := 13) (b := 14) (c := 0) (d := 0)
      (.inr rfl) (.inr rfl) (.inl rfl) (.inl rfl) rfl
  have hkind : WritesString "\n" _ := .mk (.cons (.short (show ('n', '\n') ∈ _ by decide)) .nil)
  have htarget : WritesString "ü" _ := .mk (.cons (.code hcode) .nil)
  have hsource : WritesString "😀" _ := .mk (.cons (.pair (by decide) hleading htrailing) .nil)
  -- the records
  have hmembers := WritesList.cons
    (.of_writes (WritesMember.mk (m := ("type", .string "\n")) (writesString_literal (by decide))
      blanks_nil blanks_nil (Writes.flat (.string hkind) 124)))
    (.cons (.of_writes (.mk (m := ("note", .array [.null])) (writesString_literal (by decide))
      blanks_nil blanks_nil (.inr (.array (.last (.of_writes (Writes.flat .null 123)))))))
    (.cons (.of_writes (.mk (m := ("target", .string "ü")) (writesString_literal (by decide))
      blanks_nil blanks_nil (Writes.flat (.string htarget) 124)))
    (.last (.of_writes (.mk (m := ("source", .string "😀")) (writesString_literal (by decide))
      blanks_nil blanks_nil (Writes.flat (.string hsource) 124))))))
  have hentries : WritesList (Writes 124) [.string "a", .string "b", .string "c"] _ :=
    .cons (.of_writes (.flat (.string (writesString_literal (by decide))) 124))
    (.cons ⟨[' '], _, [], hblank ' ' rfl, .flat (.string (writesString_literal (by decide))) 124,
      blanks_nil, rfl⟩
    (.last (.of_writes (.flat (.string (writesString_literal (by decide))) 124))))
  have hrecords : WritesList (Writes 125) _ _ := .cons (.of_writes (.inr (.object hmembers)))
    (.last ⟨['\t'], _, [], hblank '\t' rfl, .inr (.array hentries), blanks_nil, rfl⟩)
  -- the document
  have hseven : WritesNumeral ⟨false, ['7'], none, none⟩ ['7'] :=
    ⟨⟨by decide, List.all_eq_true.mp rfl⟩, by decide, [], [], .absent, .absent, rfl⟩
  have hlinks : WritesString "links" _ := writesString_literal (by decide)
  have hdocument : WritesNested (Writes 126)
      (.object ([("links", .number (.whole 7))] ++ ("links", .array _) :: [])) _ := .object (.cons
    ⟨[], _, [' '], blanks_nil, .mk hlinks blanks_nil blanks_nil (.flat (.number hseven rfl) 126),
      hblank ' ' rfl, rfl⟩
    (.last (.of_writes (.mk hlinks (hblank ' ' rfl) blanks_nil (.inr (.array hrecords))))))
  refine read_of_denotes ⟨_, .links (List.forall_mem_nil _) ?_, [], _, ['\n'], blanks_nil,
    .inr hdocument, hblank '\n' rfl, by rw [String.toList_append]; rfl⟩
  exact .cons (.members rfl rfl rfl) (.cons .entries .nil)

/-- Any records are what some text stands for. -/
theorem exists_denotes (records : List Record) : ∃ text, Denotes text records := by
  have hentry : ∀ r : Record, ∃ text, Json.Writes 126
      (.array [.string r.source, .string r.target, .string r.kind]) text := by
    intro r
    refine Json.exists_writes_array fun e he => ?_
    obtain ⟨s, rfl⟩ : ∃ s, e = .string s := by
      simp only [List.mem_cons, List.not_mem_nil, or_false] at he
      rcases he with rfl | rfl | rfl <;> exact ⟨_, rfl⟩
    exact Json.exists_writes_string 125 s
  obtain ⟨text, htext⟩ := Json.exists_writes_array
    (List.forall_mem_map.mpr fun r (_ : r ∈ records) => hentry r)
  refine ⟨text, _, .bare ?_, .of_writes htext⟩
  exact List.forall₂_map_right_iff.mpr (List.forall₂_same.mpr fun r _ => .entries)

/-- Any records are read from some text. -/
theorem exists_read (records : List Record) : ∃ text, read text = .ok records := by
  obtain ⟨text, json, hrecords, htext⟩ := exists_denotes records
  refine ⟨String.ofList text, ?_⟩
  rw [read, String.toList_ofList, Json.parse_writes htext]
  exact ofJson_of_isWritten hrecords

end Dataset

end ForceDiagram
