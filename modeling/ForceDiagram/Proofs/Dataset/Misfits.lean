/-
ForceDiagram/Proofs/Dataset/Misfits.lean

Which values are datasets, and what is reported of every other one.

A record is wanted of every entry, a string of every entry of a record and of every member
that is one of its fields.  Wherever something is wanted of each item of a list, reading stops
at the first item that does not give it (`FirstError`), and this is the item reported: nothing
behind it is looked at.  Only the members of a record are gone through twice, for values that
are no strings and then for members that are missing.

Main result: a text that denotes a value is read as the records that the entries of the value
are, or else its one fault is reported (`read_of_parse`).
-/
import ForceDiagram.Dataset.Reading
import ForceDiagram.Proofs.Dataset.Reading
import Mathlib.Tactic.Choose

namespace ForceDiagram

/-! ### The first failure -/

section FirstError

variable {α β ε : Type}

/-- The first item of a list on which `f` fails, fails with this error. -/
def FirstError (f : α → Except ε β) (as : List α) (error : ε) : Prop :=
  ∃ before a after, as = before ++ a :: after ∧ (∀ b ∈ before, ∃ v, f b = .ok v) ∧
    f a = .error error

theorem FirstError.cons_of_error {f : α → Except ε β} {a : α} {as : List α} {error e : ε}
    (ha : f a = .error error) : FirstError f (a :: as) e ↔ e = error := by
  constructor
  · rintro ⟨_ | ⟨b, before⟩, c, after, heq, hbefore, hc⟩
    · obtain ⟨rfl, -⟩ := List.cons.inj heq
      exact Except.error.inj (hc.symm.trans ha)
    · obtain ⟨rfl, -⟩ := List.cons.inj heq
      obtain ⟨v, hv⟩ := hbefore a List.mem_cons_self
      nomatch ha.symm.trans hv
  · rintro rfl
    exact ⟨[], a, as, rfl, nofun, ha⟩

theorem FirstError.cons_of_ok {f : α → Except ε β} {a : α} {v : β} (as : List α) (e : ε)
    (ha : f a = .ok v) : FirstError f (a :: as) e ↔ FirstError f as e := by
  constructor
  · rintro ⟨_ | ⟨b, before⟩, c, after, heq, hbefore, hc⟩
    · obtain ⟨rfl, -⟩ := List.cons.inj heq
      nomatch ha.symm.trans hc
    · exact ⟨before, c, after, (List.cons.inj heq).2, (List.forall_mem_cons.mp hbefore).2, hc⟩
  · rintro ⟨before, c, after, rfl, hbefore, hc⟩
    exact ⟨a :: before, c, after, rfl, List.forall_mem_cons.mpr ⟨⟨v, ha⟩, hbefore⟩, hc⟩

/-- Either nothing fails, or something fails first. -/
theorem forall_ok_or_firstError (f : α → Except ε β) (as : List α) :
    (∀ a ∈ as, ∃ v, f a = .ok v) ∨ ∃ error, FirstError f as error := by
  induction as with
  | nil => exact .inl nofun
  | cons a as ih =>
    cases ha : f a with
    | error error => exact .inr ⟨error, (FirstError.cons_of_error ha).mpr rfl⟩
    | ok v =>
      rcases ih with hall | ⟨error, herror⟩
      · exact .inl (List.forall_mem_cons.mpr ⟨⟨v, ha⟩, hall⟩)
      · exact .inr ⟨error, (FirstError.cons_of_ok as error ha).mpr herror⟩

theorem mapM_eq_error_iff (f : α → Except ε β) (as : List α) (error : ε) :
    as.mapM f = .error error ↔ FirstError f as error := by
  induction as with
  | nil => exact ⟨nofun, fun ⟨before, a, after, heq, _⟩ => by simp at heq⟩
  | cons a as ih =>
    rw [List.mapM_cons]
    cases ha : f a with
    | error e =>
      rw [FirstError.cons_of_error ha, eq_comm]
      exact ⟨Except.error.inj, congrArg Except.error⟩
    | ok v =>
      rw [FirstError.cons_of_ok as error ha, ← ih]
      cases as.mapM f <;> simp [bind, Except.bind, pure, Except.pure]

end FirstError

/-! ### Members -/

/-- The value of a member that no other of its name follows. -/
def Json.Member (name : String) (json : Json) (members : List (String × Json)) : Prop :=
  ∃ before after, members = before ++ (name, json) :: after ∧ ∀ m ∈ after, m.1 ≠ name

theorem Json.lookup?_eq_none_iff {name : String} {members : List (String × Json)} :
    lookup? name members = none ↔ ∀ m ∈ members, m.1 ≠ name := by
  simp [lookup?]

theorem Json.lookup?_eq_some_iff {name : String} {json : Json} {members : List (String × Json)} :
    lookup? name members = some json ↔ Member name json members := by
  constructor
  · intro h
    obtain ⟨m, hm, rfl⟩ := Option.map_eq_some_iff.mp h
    obtain ⟨hname, after, before, hreverse, hafter⟩ := List.find?_eq_some_iff_append.mp hm
    obtain rfl : m.1 = name := by simpa using hname
    refine ⟨before.reverse, after.reverse, ?_, fun n hn => ?_⟩
    · simpa using congrArg List.reverse hreverse
    · simpa using hafter n (List.mem_reverse.mp hn)
  · rintro ⟨before, after, rfl, hafter⟩
    exact lookup?_of_last hafter json

namespace Record

/-! ### Values that are records -/

attribute [ext] Record

/-- The fields in the order in which they are looked at. -/
def Field.all : List Field :=
  [.source, .target, .kind]

theorem Field.mem_all (field : Field) : field ∈ all := by
  cases field <;> decide

/-- The string in a field. -/
def get (r : Record) : Field → String
  | .source => r.source
  | .target => r.target
  | .kind => r.kind

/-- The values that are a record: the array of its strings, and the objects with its strings as
members, whatever other members there are. -/
inductive Fits (r : Record) : Json → Prop where
  | entries : r.Fits (.array [.string r.source, .string r.target, .string r.kind])
  | members {ms : List (String × Json)}
    (h : ∀ field : Field, Json.Member field.name (.string (r.get field)) ms) : r.Fits (.object ms)

/-- What is reported of a value that is no record.  Of an array this is its first entry that is
no string, up to the third, and only then its length; of an object the first field with a value
that is no string, and if there is none the first field that is missing. -/
inductive Misfits : Json → Misfit → Prop where
  | scalar {json : Json} (harray : ∀ es, json ≠ .array es) (hobject : ∀ ms, json ≠ .object ms) :
    Misfits json (.noRecord json)
  | entry {before after : List Json} {e : Json} (hbefore : ∀ b ∈ before, ∃ s, b = .string s)
    (hlength : before.length < 3) (he : ∀ s, e ≠ .string s) :
    Misfits (.array (before ++ e :: after)) (.noString e)
  | short {es : List Json} (hes : ∀ e ∈ es, ∃ s, e = .string s) (hlength : es.length < 3) :
    Misfits (.array es) (.tooShort es.length)
  | long {es : List Json} (hes : ∀ e ∈ es.take 3, ∃ s, e = .string s) (hlength : 3 < es.length) :
    Misfits (.array es) (.tooLong es.length)
  | member {ms : List (String × Json)} {before after : List Field} {field : Field} {found : Json}
    (horder : Field.all = before ++ field :: after)
    (hbefore : ∀ f ∈ before, ∀ json, Json.Member f.name json ms → ∃ s, json = .string s)
    (hfield : Json.Member field.name found ms) (hfound : ∀ s, found ≠ .string s) :
    Misfits (.object ms) (.noString found)
  | missing {ms : List (String × Json)} {before after : List Field} {field : Field}
    (hstrings : ∀ (f : Field) (json : Json), Json.Member f.name json ms → ∃ s, json = .string s)
    (horder : Field.all = before ++ field :: after)
    (hbefore : ∀ f ∈ before, ∃ json, Json.Member f.name json ms)
    (hfield : ∀ m ∈ ms, m.1 ≠ field.name) :
    Misfits (.object ms) (.missing field)

/-! ### Strings -/

theorem stringOf_eq_ok_iff {json : Json} {s : String} :
    stringOf json = .ok s ↔ json = .string s := by
  constructor
  · intro h
    cases json with
    | string t => exact congrArg Json.string (Except.ok.inj h)
    | _ => nomatch h
  · rintro rfl
    rfl

theorem stringOf_eq_error_iff {json : Json} {misfit : Misfit} :
    stringOf json = .error misfit ↔ (∀ s, json ≠ .string s) ∧ misfit = .noString json := by
  cases json <;> simp [stringOf, eq_comm]

/-! ### Records written as arrays -/

/-- If the first three entries are strings, the length decides. -/
theorem ofEntries_of_strings {es : List Json} (h : ∀ e ∈ es.take 3, ∃ s, e = .string s) :
    (∃ r : Record, es = [.string r.source, .string r.target, .string r.kind]) ∨
    (es.length < 3 ∧ ofEntries es = .error (.tooShort es.length)) ∨
    3 < es.length ∧ ofEntries es = .error (.tooLong es.length) := by
  match es with
  | [] => exact .inr (.inl ⟨by decide, rfl⟩)
  | [_] =>
    obtain ⟨s, rfl⟩ := h _ (.head _)
    exact .inr (.inl ⟨by simp, rfl⟩)
  | [_, _] =>
    obtain ⟨s, rfl⟩ := h _ (.head _)
    obtain ⟨t, rfl⟩ := h _ (.tail _ (.head _))
    exact .inr (.inl ⟨by simp, rfl⟩)
  | _ :: _ :: _ :: es =>
    obtain ⟨s, rfl⟩ := h _ (.head _)
    obtain ⟨t, rfl⟩ := h _ (.tail _ (.head _))
    obtain ⟨k, rfl⟩ := h _ (.tail _ (.tail _ (.head _)))
    cases es with
    | nil => exact .inl ⟨⟨s, t, k⟩, rfl⟩
    | cons e es => exact .inr (.inr ⟨by simp, rfl⟩)

theorem ofEntries_of_firstError {es : List Json} {misfit : Misfit}
    (h : FirstError stringOf (es.take 3) misfit) : ofEntries es = .error misfit := by
  rw [ofEntries, (mapM_eq_error_iff ..).mpr h]
  rfl

theorem exists_stringOf_iff {json : Json} :
    (∃ s, stringOf json = .ok s) ↔ ∃ s, json = .string s := by
  simp only [stringOf_eq_ok_iff]

theorem ofEntries_eq_ok_iff {es : List Json} {r : Record} :
    ofEntries es = .ok r ↔ r.Fits (.array es) := by
  constructor
  · intro h
    rcases forall_ok_or_firstError stringOf (es.take 3) with hstrings | ⟨error, herror⟩
    · rcases ofEntries_of_strings fun e he => exists_stringOf_iff.mp (hstrings e he) with
        ⟨r, rfl⟩ | ⟨-, hread⟩ | ⟨-, hread⟩
      · obtain rfl := Except.ok.inj h
        exact .entries
      · nomatch hread.symm.trans h
      · nomatch hread.symm.trans h
    · nomatch (ofEntries_of_firstError herror).symm.trans h
  · rintro ⟨⟩
    rfl

theorem ofEntries_eq_error_iff {es : List Json} {misfit : Misfit} :
    ofEntries es = .error misfit ↔ Misfits (.array es) misfit := by
  constructor
  · intro h
    rcases forall_ok_or_firstError stringOf (es.take 3) with hstrings | ⟨error, herror⟩
    · replace hstrings := fun e he => exists_stringOf_iff.mp (hstrings e he)
      rcases ofEntries_of_strings hstrings with ⟨r, rfl⟩ | ⟨hlength, hread⟩ | ⟨hlength, hread⟩
      · nomatch h
      · obtain rfl := Except.error.inj (h.symm.trans hread)
        exact .short (List.take_of_length_le hlength.le ▸ hstrings) hlength
      · obtain rfl := Except.error.inj (h.symm.trans hread)
        exact .long hstrings hlength
    · obtain rfl := Except.error.inj (h.symm.trans (ofEntries_of_firstError herror))
      obtain ⟨before, e, after, htake, hbefore, he⟩ := herror
      obtain ⟨hstring, rfl⟩ := stringOf_eq_error_iff.mp he
      -- what stands behind the third entry is not looked at
      have hlength : before.length < 3 := by
        have := congrArg List.length htake
        simp only [List.length_take, List.length_append, List.length_cons] at this
        omega
      have hes : es = before ++ e :: (after ++ es.drop 3) := by
        simpa [htake] using (List.take_append_drop 3 es).symm
      exact hes ▸ .entry (fun b hb => exists_stringOf_iff.mp (hbefore b hb)) hlength hstring
  · rintro (_ | ⟨hbefore, hlength, he⟩ | ⟨hes, hlength⟩ | ⟨hes, hlength⟩)
    · next harray _ => exact absurd rfl (harray es)
    · next before after e =>
      refine ofEntries_of_firstError ⟨before, e, after.take (2 - before.length), ?_,
        fun b hb => exists_stringOf_iff.mpr (hbefore b hb), stringOf_eq_error_iff.mpr ⟨he, rfl⟩⟩
      rw [List.take_append, List.take_of_length_le hlength.le,
        show 3 - before.length = 2 - before.length + 1 by omega, List.take_succ_cons]
    · rcases ofEntries_of_strings fun e he => hes e (List.mem_of_mem_take he) with
        ⟨r, rfl⟩ | ⟨-, hread⟩ | ⟨hlong, -⟩
      · nomatch hlength
      · exact hread
      · omega
    · rcases ofEntries_of_strings hes with ⟨r, rfl⟩ | ⟨hshort, -⟩ | ⟨-, hread⟩
      · nomatch hlength
      · omega
      · exact hread

/-! ### Records written as objects -/

theorem fieldOf_eq_ok_iff {ms : List (String × Json)} {field : Field} {s : Option String} :
    fieldOf ms field = .ok s ↔ Json.lookup? field.name ms = s.map .string := by
  rw [fieldOf]
  cases Json.lookup? field.name ms with
  | none => cases s <;> simp
  | some json => cases json <;> cases s <;> simp [stringOf, Except.map]

theorem exists_fieldOf_iff {ms : List (String × Json)} {field : Field} :
    (∃ s, fieldOf ms field = .ok s) ↔
      ∀ json, Json.Member field.name json ms → ∃ s, json = .string s := by
  simp only [← Json.lookup?_eq_some_iff, fieldOf_eq_ok_iff]
  constructor
  · rintro ⟨s, hs⟩ json hjson
    obtain ⟨t, -, rfl⟩ := Option.map_eq_some_iff.mp (hs.symm.trans hjson)
    exact ⟨t, rfl⟩
  · intro h
    cases hjson : Json.lookup? field.name ms with
    | none => exact ⟨none, rfl⟩
    | some json =>
      obtain ⟨s, rfl⟩ := h json hjson
      exact ⟨some s, rfl⟩

theorem fieldOf_eq_error_iff {ms : List (String × Json)} {field : Field} {misfit : Misfit} :
    fieldOf ms field = .error misfit ↔
      ∃ found, Json.Member field.name found ms ∧ (∀ s, found ≠ .string s) ∧
        misfit = .noString found := by
  simp only [← Json.lookup?_eq_some_iff, fieldOf]
  cases Json.lookup? field.name ms with
  | none => simp
  | some json =>
    have hmap : (stringOf json).map some = .error misfit ↔ stringOf json = .error misfit := by
      cases stringOf json <;> simp [Except.map]
    simp [hmap, stringOf_eq_error_iff]

theorem required_eq_ok_iff {field : Field} {found : Option String} {s : String} :
    required field found = .ok s ↔ found = some s := by
  cases found <;> simp [required]

theorem required_eq_error_iff {field : Field} {found : Option String} {misfit : Misfit} :
    required field found = .error misfit ↔ found = none ∧ misfit = .missing field := by
  cases found <;> simp [required, eq_comm]

/-- An object is read field by field, for what is no string first. -/
theorem ofMembers_of_firstError {ms : List (String × Json)} {misfit : Misfit}
    (h : FirstError (fieldOf ms) Field.all misfit) : ofMembers ms = .error misfit := by
  have hread := (mapM_eq_error_iff ..).mpr h
  simp only [Field.all, List.mapM_cons, List.mapM_nil] at hread
  rw [ofMembers]
  cases hsource : fieldOf ms .source <;> cases htarget : fieldOf ms .target <;>
    cases hkind : fieldOf ms .kind <;>
    simp_all [bind, Except.bind, pure, Except.pure]

/-- Once there are only strings, it is read field by field for what is missing. -/
theorem ofMembers_of_fields {ms : List (String × Json)} {found : Field → Option String}
    (h : ∀ field, fieldOf ms field = .ok (found field)) :
    (∀ r, ofMembers ms = .ok r ↔ ∀ field, found field = some (r.get field)) ∧
    ∀ misfit, ofMembers ms = .error misfit ↔
      FirstError (fun field => required field (found field)) Field.all misfit := by
  have hfields : ∀ r : Record, (∀ field, found field = some (r.get field)) ↔
      found .source = some r.source ∧ found .target = some r.target ∧ found .kind = some r.kind :=
    fun r => ⟨fun h => ⟨h .source, h .target, h .kind⟩, fun ⟨hs, ht, hk⟩ field => by
      cases field <;> assumption⟩
  simp only [hfields, ← mapM_eq_error_iff, Field.all, List.mapM_cons, List.mapM_nil, ofMembers, h,
    bind, Except.bind, pure, Except.pure]
  cases found .source <;> cases found .target <;> cases found .kind <;>
    simp [required, Record.ext_iff]

theorem ofMembers_eq_ok_iff {ms : List (String × Json)} {r : Record} :
    ofMembers ms = .ok r ↔ r.Fits (.object ms) := by
  constructor
  · intro h
    rcases forall_ok_or_firstError (fieldOf ms) Field.all with hfields | ⟨misfit, hmisfit⟩
    · choose found hfound using fun field => hfields field (Field.mem_all field)
      refine .members fun field => Json.lookup?_eq_some_iff.mp ?_
      rw [fieldOf_eq_ok_iff.mp (hfound field), ((ofMembers_of_fields hfound).1 r).mp h field]
      rfl
    · nomatch (ofMembers_of_firstError hmisfit).symm.trans h
  · rintro (_ | h)
    have hfound : ∀ field, fieldOf ms field = .ok (some (r.get field)) := fun field =>
      fieldOf_eq_ok_iff.mpr (Json.lookup?_eq_some_iff.mpr (h field))
    exact ((ofMembers_of_fields hfound).1 r).mpr fun field => rfl

theorem ofMembers_eq_error_iff {ms : List (String × Json)} {misfit : Misfit} :
    ofMembers ms = .error misfit ↔ Misfits (.object ms) misfit := by
  constructor
  · intro h
    rcases forall_ok_or_firstError (fieldOf ms) Field.all with hfields | ⟨error, herror⟩
    · have hstrings := fun field => exists_fieldOf_iff.mp (hfields field (Field.mem_all field))
      choose found hfound using fun field => hfields field (Field.mem_all field)
      obtain ⟨before, field, after, horder, hbefore, hfield⟩ :=
        ((ofMembers_of_fields hfound).2 misfit).mp h
      obtain ⟨hnone, rfl⟩ := required_eq_error_iff.mp hfield
      refine .missing hstrings horder (fun f hf => ?_) (Json.lookup?_eq_none_iff.mp ?_)
      · obtain ⟨s, hs⟩ := hbefore f hf
        rw [required_eq_ok_iff] at hs
        refine ⟨.string s, Json.lookup?_eq_some_iff.mp ?_⟩
        rw [fieldOf_eq_ok_iff.mp (hfound f), hs]
        rfl
      · rw [fieldOf_eq_ok_iff.mp (hfound field), hnone]
        rfl
    · obtain rfl := Except.error.inj (h.symm.trans (ofMembers_of_firstError herror))
      obtain ⟨before, field, after, horder, hbefore, hfield⟩ := herror
      obtain ⟨json, hjson, hstring, rfl⟩ := fieldOf_eq_error_iff.mp hfield
      exact .member horder (fun f hf => exists_fieldOf_iff.mp (hbefore f hf)) hjson hstring
  · rintro (_ | _ | _ | _ | ⟨horder, hbefore, hfield, hfound⟩ |
      ⟨hstrings, horder, hbefore, hfield⟩)
    · next hobject => exact absurd rfl (hobject ms)
    · exact ofMembers_of_firstError ⟨_, _, _, horder,
        fun f hf => exists_fieldOf_iff.mpr (hbefore f hf),
        fieldOf_eq_error_iff.mpr ⟨_, hfield, hfound, rfl⟩⟩
    · choose found hfound using fun field => exists_fieldOf_iff.mpr (hstrings field)
      refine ((ofMembers_of_fields hfound).2 _).mpr ⟨_, _, _, horder, fun f hf => ?_, ?_⟩
      · obtain ⟨json, hjson⟩ := hbefore f hf
        have := (fieldOf_eq_ok_iff.mp (hfound f)).symm.trans (Json.lookup?_eq_some_iff.mpr hjson)
        obtain ⟨s, hs, -⟩ := Option.map_eq_some_iff.mp this
        exact ⟨s, required_eq_ok_iff.mpr hs⟩
      · have := (fieldOf_eq_ok_iff.mp (hfound _)).symm.trans (Json.lookup?_eq_none_iff.mpr hfield)
        exact required_eq_error_iff.mpr ⟨Option.map_eq_none_iff.mp this, rfl⟩

/-! ### Reading a record -/

/-- A value is read as the record that it is. -/
theorem ofJson_eq_ok_iff {json : Json} {r : Record} : ofJson json = .ok r ↔ r.Fits json := by
  cases json with
  | array es => exact ofEntries_eq_ok_iff
  | object ms => exact ofMembers_eq_ok_iff
  | _ => exact ⟨nofun, nofun⟩

/-- Of a value that is no record its one misfit is reported. -/
theorem ofJson_eq_error_iff {json : Json} {misfit : Misfit} :
    ofJson json = .error misfit ↔ Misfits json misfit := by
  cases json with
  | array es => exact ofEntries_eq_error_iff
  | object ms => exact ofMembers_eq_error_iff
  | _ =>
    constructor
    · intro h
      obtain rfl := Except.error.inj h
      exact .scalar nofun nofun
    · rintro ⟨⟩
      rfl

end Record

/-! ### Reading a dataset -/

namespace Dataset

/-- The values that hold entries to be read as records: the arrays, and the objects with an array
as the member named `links`. -/
inductive Holds : Json → List Json → Prop where
  | bare {es : List Json} : Holds (.array es) es
  | links {ms : List (String × Json)} {es : List Json}
    (h : Json.Member "links" (.array es) ms) : Holds (.object ms) es

/-- What is reported of a value that is no dataset.  Only an entry has an index to be reported
with, and of the entries the first that is no record, whatever stands behind it. -/
inductive Faulty : Json → ReadError → Prop where
  | scalar {json : Json} (harray : ∀ es, json ≠ .array es) (hobject : ∀ ms, json ≠ .object ms) :
    Faulty json .noDataset
  | links {ms : List (String × Json)} (h : ∀ es, ¬Json.Member "links" (.array es) ms) :
    Faulty (.object ms) .noLinks
  | record {json bad : Json} {before after : List Json} {misfit : Record.Misfit}
    (hentries : Holds json (before ++ bad :: after))
    (hbefore : ∀ e ∈ before, ∃ r : Record, r.Fits e) (hbad : Record.Misfits bad misfit) :
    Faulty json (.invalidRecord before.length misfit)

theorem entriesOf_object_eq_ok_iff {ms : List (String × Json)} {es : List Json} :
    entriesOf (.object ms) = .ok es ↔ Json.Member "links" (.array es) ms := by
  rw [← Json.lookup?_eq_some_iff, entriesOf]
  split
  · next others hlookup => simp [hlookup]
  · next hlookup => exact iff_of_false (by simp) (hlookup es)

theorem entriesOf_object_eq_error_iff {ms : List (String × Json)} {error : ReadError} :
    entriesOf (.object ms) = .error error ↔
      (∀ es, ¬Json.Member "links" (.array es) ms) ∧ error = .noLinks := by
  simp only [← Json.lookup?_eq_some_iff]
  rw [entriesOf]
  split
  · next es hlookup => simp [hlookup]
  · next hlookup => simpa [eq_comm] using fun _ => hlookup

theorem entriesOf_eq_ok_iff {json : Json} {es : List Json} :
    entriesOf json = .ok es ↔ Holds json es := by
  constructor
  · intro h
    cases json with
    | array => exact Except.ok.inj h ▸ .bare
    | object ms => exact .links (entriesOf_object_eq_ok_iff.mp h)
    | _ => nomatch h
  · rintro (_ | h)
    · rfl
    · exact entriesOf_object_eq_ok_iff.mpr h

/-- A value without entries is reported without an index. -/
theorem faulty_of_entriesOf {json : Json} {error : ReadError} (h : entriesOf json = .error error) :
    Faulty json error := by
  cases json with
  | array => nomatch h
  | object ms =>
    obtain ⟨hlinks, rfl⟩ := entriesOf_object_eq_error_iff.mp h
    exact .links hlinks
  | _ =>
    obtain rfl := Except.error.inj h
    exact .scalar nofun nofun

theorem recordsFrom_cons_of_fits {e : Json} {r : Record} (he : r.Fits e) (index : Nat)
    (es : List Json) :
    recordsFrom index (e :: es) = (recordsFrom (index + 1) es).map (r :: ·) := by
  rw [recordsFrom, Record.ofJson_eq_ok_iff.mpr he]
  rfl

theorem recordsFrom_of_forall₂ {es : List Json} {records : List Record}
    (h : List.Forall₂ Record.Fits records es) (index : Nat) :
    recordsFrom index es = .ok records := by
  induction h generalizing index with
  | nil => rfl
  | cons hr _ ih => rw [recordsFrom_cons_of_fits hr, ih, Except.map]

/-- Reading stops at the first entry that is no record, which is counted from the first index. -/
theorem recordsFrom_of_misfits {before : List Json} (hbefore : ∀ e ∈ before, ∃ r : Record, r.Fits e)
    {bad : Json} {misfit : Record.Misfit} (hbad : Record.Misfits bad misfit) (after : List Json)
    (index : Nat) :
    recordsFrom index (before ++ bad :: after) =
      .error (.invalidRecord (index + before.length) misfit) := by
  induction before generalizing index with
  | nil =>
    rw [List.nil_append, recordsFrom, Record.ofJson_eq_error_iff.mpr hbad]
    rfl
  | cons e before ih =>
    obtain ⟨⟨r, hr⟩, hbefore⟩ := List.forall_mem_cons.mp hbefore
    rw [List.cons_append, recordsFrom_cons_of_fits hr, ih hbefore, Except.map, List.length_cons,
      Nat.add_right_comm, Nat.add_assoc]

theorem exists_forall₂_fits_iff {es : List Json} :
    (∃ records, List.Forall₂ Record.Fits records es) ↔ ∀ e ∈ es, ∃ r : Record, r.Fits e := by
  induction es with
  | nil => exact ⟨fun _ => nofun, fun _ => ⟨[], .nil⟩⟩
  | cons e es ih =>
    rw [List.forall_mem_cons, ← ih]
    constructor
    · rintro ⟨_, hr | ⟨hr, hrecords⟩⟩
      exact ⟨⟨_, hr⟩, _, hrecords⟩
    · rintro ⟨⟨r, hr⟩, records, hrecords⟩
      exact ⟨r :: records, .cons hr hrecords⟩

/-- Either all entries are records, or one is the first that is none. -/
theorem forall₂_fits_or_misfits (es : List Json) :
    (∃ records, List.Forall₂ Record.Fits records es) ∨
    ∃ before bad after misfit, es = before ++ bad :: after ∧
      (∀ e ∈ before, ∃ r : Record, r.Fits e) ∧ Record.Misfits bad misfit := by
  rcases forall_ok_or_firstError Record.ofJson es with hall | ⟨misfit, hfirst⟩
  · simp only [Record.ofJson_eq_ok_iff] at hall
    exact .inl (exists_forall₂_fits_iff.mpr hall)
  · simp only [FirstError, Record.ofJson_eq_ok_iff, Record.ofJson_eq_error_iff] at hfirst
    obtain ⟨before, bad, after, hes, hbefore, hbad⟩ := hfirst
    exact .inr ⟨before, bad, after, misfit, hes, hbefore, hbad⟩

theorem ofJson_of_holds {json : Json} {es : List Json} (h : Holds json es) :
    ofJson json = recordsFrom 0 es := by
  rw [ofJson, entriesOf_eq_ok_iff.mpr h]
  rfl

theorem ofJson_of_error {json : Json} {error : ReadError} (h : entriesOf json = .error error) :
    ofJson json = .error error := by
  rw [ofJson, h]
  rfl

/-- A value is read as the records that its entries are. -/
theorem ofJson_eq_ok_iff {json : Json} {records : List Record} :
    ofJson json = .ok records ↔ ∃ es, Holds json es ∧ List.Forall₂ Record.Fits records es := by
  constructor
  · intro h
    cases hentries : entriesOf json with
    | error error => nomatch (ofJson_of_error hentries).symm.trans h
    | ok es =>
      have hholds := entriesOf_eq_ok_iff.mp hentries
      rw [ofJson_of_holds hholds] at h
      rcases forall₂_fits_or_misfits es with ⟨others, hothers⟩ | ⟨_, _, _, _, rfl, hbefore, hbad⟩
      · obtain rfl := Except.ok.inj ((recordsFrom_of_forall₂ hothers 0).symm.trans h)
        exact ⟨es, hholds, hothers⟩
      · nomatch (recordsFrom_of_misfits hbefore hbad _ 0).symm.trans h
  · rintro ⟨es, hholds, hrecords⟩
    rw [ofJson_of_holds hholds, recordsFrom_of_forall₂ hrecords]

/-- Of a value that is no dataset its one fault is reported. -/
theorem ofJson_eq_error_iff {json : Json} {error : ReadError} :
    ofJson json = .error error ↔ Faulty json error := by
  constructor
  · intro h
    cases hentries : entriesOf json with
    | error other =>
      obtain rfl := Except.error.inj ((ofJson_of_error hentries).symm.trans h)
      exact faulty_of_entriesOf hentries
    | ok es =>
      have hholds := entriesOf_eq_ok_iff.mp hentries
      rw [ofJson_of_holds hholds] at h
      rcases forall₂_fits_or_misfits es with ⟨records, hrecords⟩ |
        ⟨before, bad, after, misfit, rfl, hbefore, hbad⟩
      · nomatch (recordsFrom_of_forall₂ hrecords 0).symm.trans h
      · have hread := recordsFrom_of_misfits hbefore hbad after 0
        rw [Nat.zero_add] at hread
        obtain rfl := Except.error.inj (hread.symm.trans h)
        exact .record hholds hbefore hbad
  · rintro (⟨harray, hobject⟩ | hlinks | ⟨hholds, hbefore, hbad⟩)
    · cases json with
      | array es => exact absurd rfl (harray es)
      | object ms => exact absurd rfl (hobject ms)
      | _ => rfl
    · exact ofJson_of_error (entriesOf_object_eq_error_iff.mpr ⟨hlinks, rfl⟩)
    · rw [ofJson_of_holds hholds, recordsFrom_of_misfits hbefore hbad, Nat.zero_add]

end Dataset

end ForceDiagram
