/-
ForceDiagram/Proofs/Json/Reader.lean

Every text that stands for a value is read as that value.

The reader recurses on the allowance of nesting, and so do the texts: what is known of the
reader for the values inside an array or an object is all that the induction needs.  Entries
and members are read by loops of one kind (`Repeats`) between marks of one kind (`Encloses`),
so that arrays and objects are gone through once for both.  A value is always followed by
something that ends a number.

Main result: a value between blanks is parsed (`parse_writes`).
-/
import ForceDiagram.Json.Reader
import ForceDiagram.Proofs.Json.Numeral
import Mathlib.Data.Bool.AllAny

namespace ForceDiagram

namespace Json

/-! ### Blanks -/

theorem skipBlanks_append {blanks : List Char} (h : Blanks blanks) (rest : List Char) :
    skipBlanks (blanks ++ rest) = skipBlanks rest :=
  List.dropWhile_append_of_pos h

theorem skipBlanks_cons {c : Char} (h : isBlank c = false) (rest : List Char) :
    skipBlanks (c :: rest) = c :: rest :=
  List.dropWhile_cons_of_neg (by simp [h])

theorem mem_of_isBlank {c : Char} (h : isBlank c = true) : c ∈ [' ', '\n', '\t', '\r'] := by
  simpa [isBlank, or_assoc] using h

theorem stops_nil : Stops [] := nofun

theorem stops_cons {c : Char} (h : c.isDigit = false ∧ c ≠ '.' ∧ c ≠ 'e' ∧ c ≠ 'E')
    (rest : List Char) : Stops (c :: rest) := by
  rintro d ⟨⟩
  exact h

theorem stops_append {blanks rest : List Char} (hblanks : Blanks blanks) (hrest : Stops rest) :
    Stops (blanks ++ rest) := by
  have hall : ∀ c ∈ [' ', '\n', '\t', '\r'],
      c.isDigit = false ∧ c ≠ '.' ∧ c ≠ 'e' ∧ c ≠ 'E' := List.all_iff_forall_prop.mp (by decide)
  cases blanks with
  | nil => exact hrest
  | cons c blanks =>
    exact stops_cons (hall c (mem_of_isBlank (hblanks c List.mem_cons_self))) _

/-! ### Words -/

theorem letters_append (word rest : List Char) : letters word (word ++ rest) = .ok rest := by
  induction word with
  | nil => rfl
  | cons c word ih => rw [List.cons_append, letters, if_pos rfl, ih]

theorem word_append (letter : Char) (behind : String) (meaning : Json) (rest : List Char) :
    ∃ shorter, word letter behind meaning (behind.toList ++ rest) =
      .ok ⟨meaning, rest, shorter⟩ := by
  have hletters := letters_append behind.toList rest
  refine ⟨Nat.lt_succ_of_le (letters_length_le hletters), ?_⟩
  unfold word
  split
  · next fault hfault =>
    rw [hletters] at hfault
    cases hfault
  · next after hafter =>
    obtain rfl := Except.ok.inj (hletters.symm.trans hafter)
    rfl

/-! ### Loops -/

/-- A loop that reads items up to a closing mark, with commas between them, onto those
already read, the last one first. -/
structure Repeats {α : Type} (item : Reader α) (close : Char)
    (loop : List α → List Char → Except Fault (List α × List Char)) : Prop where
  last : ∀ {read : List α} {text : List Char} {a : α} {after rest : List Char},
    Takes item text a after → skipBlanks after = close :: rest →
      loop read text = .ok ((a :: read).reverse, rest)
  next : ∀ {read : List α} {text : List Char} {a : α} {after rest : List Char},
    Takes item text a after → skipBlanks after = ',' :: rest →
      (skipBlanks rest).head? ≠ some close →
      loop read text = loop (a :: read) (skipBlanks rest)

theorem repeats_entries (value : Reader Json) : Repeats value ']' (entries value) where
  last := by
    rintro read text a after rest ⟨shorter, htake⟩ hafter
    rw [entries, htake]
    simp only
    split <;> simp_all
  next := by
    rintro read text a after rest ⟨shorter, htake⟩ hafter hclose
    conv => lhs; rw [entries, htake]
    simp only
    split <;> simp_all

theorem repeats_members (value : Reader Json) :
    Repeats (member value) '\x7d' (members value) where
  last := by
    rintro read text m after rest ⟨shorter, htake⟩ hafter
    rw [members, htake]
    simp only
    split <;> simp_all
  next := by
    rintro read text m after rest ⟨shorter, htake⟩ hafter hclose
    conv => lhs; rw [members, htake]
    simp only
    split <;> simp_all

/-- The first character of a text that is neither blank nor the given one. -/
def BeginsApart (close : Char) (text : List Char) : Prop :=
  ∃ c rest, text = c :: rest ∧ isBlank c = false ∧ c ≠ close

theorem skipBlanks_padded {close : Char} {before inside : List Char} (hbefore : Blanks before)
    (hinside : BeginsApart close inside) (rest : List Char) :
    skipBlanks (before ++ (inside ++ rest)) = inside ++ rest := by
  obtain ⟨c, more, rfl, hc, -⟩ := hinside
  rw [skipBlanks_append hbefore, List.cons_append, skipBlanks_cons hc]

section Loops

variable {α : Type} {item : Reader α} {close : Char} {writes : α → List Char → Prop}
variable (hstart : ∀ a text, writes a text → BeginsApart close text)
include hstart

theorem begins_writesList {as : List α} {text : List Char} (h : WritesList writes as text)
    (rest : List Char) : BeginsApart close (skipBlanks (text ++ rest)) := by
  have hpadded : ∀ {a text}, Padded (writes a) text → ∀ rest,
      BeginsApart close (skipBlanks (text ++ rest)) := by
    rintro a _ ⟨before, inside, after, hbefore, hinside, -, rfl⟩ rest
    have hbegins := hstart a inside hinside
    rw [List.append_assoc, List.append_assoc, skipBlanks_padded hbefore hbegins]
    obtain ⟨c, more, rfl, hblank, hc⟩ := hbegins
    exact ⟨c, _, rfl, hblank, hc⟩
  cases h with
  | last h => exact hpadded h rest
  | cons h =>
    rw [List.append_assoc]
    exact hpadded h _

/-- A loop reads every list of items that its reader of items reads. -/
theorem Repeats.takes_list {loop : List α → List Char → Except Fault (List α × List Char)}
    (hloop : Repeats item close loop) (hblank : isBlank close = false)
    (hclose : close.isDigit = false ∧ close ≠ '.' ∧ close ≠ 'e' ∧ close ≠ 'E')
    (hitem : ∀ a text rest, writes a text → Stops rest → Takes item (text ++ rest) a rest)
    {as : List α} {text : List Char} (h : WritesList writes as text) (read : List α)
    (rest : List Char) :
    loop read (skipBlanks (text ++ close :: rest)) = .ok (read.reverse ++ as, rest) := by
  induction h generalizing read with
  | last h =>
    next a text =>
    obtain ⟨before, inside, after, hbefore, hinside, hafter, rfl⟩ := h
    have hstops := stops_append hafter (stops_cons hclose rest)
    have hskip : skipBlanks (after ++ close :: rest) = close :: rest := by
      rw [skipBlanks_append hafter, skipBlanks_cons hblank]
    rw [List.append_assoc, List.append_assoc,
      skipBlanks_padded hbefore (hstart a inside hinside),
      hloop.last (hitem a inside _ hinside hstops) hskip, List.reverse_cons]
  | cons h has ih =>
    next a as text more =>
    obtain ⟨before, inside, after, hbefore, hinside, hafter, rfl⟩ := h
    have hstops : Stops (after ++ ',' :: (more ++ close :: rest)) :=
      stops_append hafter (stops_cons (by decide) _)
    have hskip : skipBlanks (after ++ ',' :: (more ++ close :: rest)) =
        ',' :: (more ++ close :: rest) := by
      rw [skipBlanks_append hafter, skipBlanks_cons (by decide)]
    obtain ⟨c, _, hnext, -, hc⟩ := begins_writesList hstart has (close :: rest)
    have hhead : (skipBlanks (more ++ close :: rest)).head? ≠ some close := by
      rw [hnext]
      exact fun heq => hc (Option.some.inj heq)
    rw [List.append_assoc, List.append_assoc, List.append_assoc, List.cons_append,
      skipBlanks_padded hbefore (hstart a inside hinside),
      hloop.next (hitem a inside _ hinside hstops) hskip hhead, ih, List.reverse_cons,
      List.append_assoc]
    rfl

end Loops

/-! ### Members -/

theorem colon_writes {before : List Char} (h : Blanks before) (rest : List Char) :
    Takes colon (before ++ ':' :: rest) () rest := by
  have hskip : skipBlanks (before ++ ':' :: rest) = ':' :: rest := by
    rw [skipBlanks_append h, skipBlanks_cons (by decide)]
  refine ⟨by simp only [List.length_append, List.length_cons]; omega, ?_⟩
  unfold colon
  split <;> simp_all

/-- A way of reading values that skips blanks before them, as long as numbers end. -/
def ReadsValues (value : Reader Json) (writes : Json → List Char → Prop) : Prop :=
  ∀ {json text before rest}, writes json text → Blanks before → Stops rest →
    Takes value (before ++ (text ++ rest)) json rest

theorem member_writes {value : Reader Json} {writes : Json → List Char → Prop}
    (hvalue : ReadsValues value writes) (m : String × Json) (text rest : List Char)
    (h : WritesMember writes m text) (hrest : Stops rest) :
    Takes (member value) (text ++ rest) m rest := by
  obtain ⟨hname, hbefore, hafter, hcontent⟩ := h
  next name before after content =>
  obtain ⟨inside, rfl, shorter, hread⟩ :=
    takeString_writes hname (before ++ ':' :: (after ++ (content ++ rest)))
  obtain ⟨shorter', hmark⟩ := colon_writes hbefore (after ++ (content ++ rest))
  obtain ⟨shorter'', hcontent⟩ := hvalue hcontent hafter hrest
  have htext : '"' :: inside ++ before ++ ':' :: after ++ content ++ rest =
      '"' :: (inside ++ (before ++ ':' :: (after ++ (content ++ rest)))) := by
    simp only [List.append_assoc, List.cons_append]
  rw [htext]
  refine ⟨Nat.lt_succ_of_lt (Nat.lt_trans shorter'' (Nat.lt_trans shorter' shorter)), ?_⟩
  simp only [member, hread, hmark, hcontent, bind, Except.bind, pure, Except.pure]
  rfl

theorem member_begins {writes : Json → List Char → Prop} (m : String × Json) (text : List Char)
    (h : WritesMember writes m text) : BeginsApart '\x7d' text := by
  obtain ⟨⟨-⟩, -, -, -⟩ := h
  exact ⟨'"', _, rfl, by decide, by decide⟩

/-! ### Arrays and objects -/

/-- A reader of what stands behind an opening mark: nothing but blanks, or the items of a
loop, up to the closing mark. -/
structure Encloses {α : Type} (take : Reader Json) (close : Char)
    (loop : List α → List Char → Except Fault (List α × List Char))
    (collect : List α → Json) : Prop where
  empty : ∀ {text rest : List Char}, skipBlanks text = close :: rest →
    Takes take text (collect []) rest
  full : ∀ {text inside after : List Char} {c : Char} {as : List α},
    skipBlanks text = c :: inside → c ≠ close → loop [] (c :: inside) = .ok (as, after) →
      Takes take text (collect as) after

theorem encloses_takeArray (value : Reader Json) :
    Encloses (takeArray value) ']' (entries value) .array where
  empty := by
    intro text rest hskip
    have hle : (']' :: rest).length ≤ text.length := hskip ▸ length_skipBlanks_le text
    refine ⟨hle, ?_⟩
    unfold takeArray
    split
    · next heq =>
      rw [hskip] at heq
      cases heq
    · next c inside heq =>
      rw [hskip] at heq
      obtain ⟨rfl, rfl⟩ := List.cons.inj heq
      rfl
  full := by
    intro text inside after c es hskip hc h
    have hle : (c :: inside).length ≤ text.length := hskip ▸ length_skipBlanks_le text
    refine ⟨Nat.lt_of_lt_of_le (entries_shorter h) hle, ?_⟩
    unfold takeArray
    split
    · next heq =>
      rw [hskip] at heq
      cases heq
    · next c' inside' heq =>
      rw [hskip] at heq
      obtain ⟨rfl, rfl⟩ := List.cons.inj heq
      simp only [if_neg hc]
      split
      · next hfault =>
        rw [h] at hfault
        cases hfault
      · next hread =>
        obtain ⟨rfl, rfl⟩ := Prod.mk.inj (Except.ok.inj (h.symm.trans hread))
        rfl

theorem encloses_takeObject (value : Reader Json) :
    Encloses (takeObject value) '\x7d' (members value) .object where
  empty := by
    intro text rest hskip
    have hle : ('\x7d' :: rest).length ≤ text.length := hskip ▸ length_skipBlanks_le text
    refine ⟨hle, ?_⟩
    unfold takeObject
    split
    · next heq =>
      rw [hskip] at heq
      cases heq
    · next c inside heq =>
      rw [hskip] at heq
      obtain ⟨rfl, rfl⟩ := List.cons.inj heq
      rfl
  full := by
    intro text inside after c ms hskip hc h
    have hle : (c :: inside).length ≤ text.length := hskip ▸ length_skipBlanks_le text
    refine ⟨Nat.lt_of_lt_of_le (members_shorter h) hle, ?_⟩
    unfold takeObject
    split
    · next heq =>
      rw [hskip] at heq
      cases heq
    · next c' inside' heq =>
      rw [hskip] at heq
      obtain ⟨rfl, rfl⟩ := List.cons.inj heq
      simp only [if_neg hc]
      split
      · next hfault =>
        rw [h] at hfault
        cases hfault
      · next hread =>
        obtain ⟨rfl, rfl⟩ := Prod.mk.inj (Except.ok.inj (h.symm.trans hread))
        rfl

section Enclosed

variable {α : Type} {take : Reader Json} {item : Reader α} {close : Char}
variable {loop : List α → List Char → Except Fault (List α × List Char)}
variable {collect : List α → Json} {writes : α → List Char → Prop}

theorem Encloses.takes_blanks (htake : Encloses take close loop collect)
    (hclose : isBlank close = false) {blanks : List Char} (hblanks : Blanks blanks)
    (rest : List Char) : Takes take (blanks ++ [close] ++ rest) (collect []) rest := by
  rw [List.append_assoc]
  refine htake.empty ?_
  rw [skipBlanks_append hblanks, List.singleton_append, skipBlanks_cons hclose]

theorem Encloses.takes_list (htake : Encloses take close loop collect)
    (hloop : Repeats item close loop) (hstart : ∀ a text, writes a text → BeginsApart close text)
    (hitem : ∀ a text rest, writes a text → Stops rest → Takes item (text ++ rest) a rest)
    (hblank : isBlank close = false)
    (hclose : close.isDigit = false ∧ close ≠ '.' ∧ close ≠ 'e' ∧ close ≠ 'E')
    {as : List α} {text : List Char} (h : WritesList writes as text) (rest : List Char) :
    Takes take (text ++ [close] ++ rest) (collect as) rest := by
  have hread := hloop.takes_list hstart hblank hclose hitem h [] rest
  obtain ⟨c, inside, hskip, -, hc⟩ := begins_writesList hstart h (close :: rest)
  rw [hskip] at hread
  rw [List.append_assoc]
  exact htake.full hskip hc hread

end Enclosed

/-! ### Values -/

/-- A value whose first character is `c` is read. -/
def Begins (inner : Option (Reader Json)) (c : Char) (text : List Char) (json : Json)
    (rest : List Char) : Prop :=
  ∃ shorter, startingWith inner c text = .ok ⟨json, rest, shorter⟩

theorem begins_numeral {n : Numeral} {text : List Char} (h : WritesNumeral n text) :
    ∃ c inside, text = c :: inside ∧ (c = '-' ∨ c.isDigit = true) := by
  obtain ⟨⟨hne, hdigits⟩, -, fraction, exponent, -, -, rfl⟩ := h
  rcases hwhole : n.whole with - | ⟨d, ds⟩
  · exact absurd hwhole hne
  · cases n.negative with
    | true => exact ⟨'-', _, rfl, .inl rfl⟩
    | false => exact ⟨d, _, rfl, .inr (hdigits d (by simp [hwhole]))⟩

theorem begins_flat {json : Json} {text : List Char} (h : WritesFlat json text)
    (inner : Option (Reader Json)) {rest : List Char} (hrest : Stops rest) :
    ∃ c inside, text = c :: inside ∧ Begins inner c (inside ++ rest) json rest := by
  cases h with
  | null =>
    obtain ⟨shorter, hword⟩ := word_append 'n' "ull" .null rest
    exact ⟨'n', "ull".toList, rfl, shorter, hword⟩
  | false =>
    obtain ⟨shorter, hword⟩ := word_append 'f' "alse" (.bool false) rest
    exact ⟨'f', "alse".toList, rfl, shorter, hword⟩
  | true =>
    obtain ⟨shorter, hword⟩ := word_append 't' "rue" (.bool true) rest
    exact ⟨'t', "rue".toList, rfl, shorter, hword⟩
  | number h hx =>
    have hnumeral := takeNumber_writes h hx hrest
    obtain ⟨c, inside, rfl, hc⟩ := begins_numeral h
    rw [List.cons_append] at hnumeral
    obtain ⟨shorter, hread⟩ := hnumeral
    have hnot : c ≠ 'n' ∧ c ≠ 't' ∧ c ≠ 'f' ∧ c ≠ '"' := by
      refine ⟨?_, ?_, ?_, ?_⟩
      all_goals
        rintro rfl
        exact absurd hc (by decide)
    obtain ⟨hn, ht, hf, hquote⟩ := hnot
    have hnumber : (decide (c = '-') || c.isDigit) = true := by simpa using hc
    refine ⟨c, inside, rfl, shorter, ?_⟩
    simp only [startingWith, if_neg hn, if_neg ht, if_neg hf, if_neg hquote, if_pos hnumber]
    simp only [hread, bind, Except.bind, pure, Except.pure]
  | string h =>
    obtain ⟨inside, rfl, shorter, hread⟩ := takeString_writes h rest
    refine ⟨'"', inside, rfl, Nat.lt_succ_of_lt shorter, ?_⟩
    simp only [startingWith, hread, bind, Except.bind, pure, Except.pure]
    rfl

theorem begins_array {value : Reader Json} {text : List Char} {json : Json} {rest : List Char}
    (h : Takes (takeArray value) text json rest) : Begins (some value) '[' text json rest := by
  obtain ⟨shorter, htake⟩ := h
  refine ⟨Nat.lt_succ_of_lt shorter, ?_⟩
  simp only [startingWith, htake, bind, Except.bind, pure, Except.pure]
  rfl

theorem begins_object {value : Reader Json} {text : List Char} {json : Json} {rest : List Char}
    (h : Takes (takeObject value) text json rest) :
    Begins (some value) '\x7b' text json rest := by
  obtain ⟨shorter, htake⟩ := h
  refine ⟨Nat.lt_succ_of_lt shorter, ?_⟩
  simp only [startingWith, htake, bind, Except.bind, pure, Except.pure]
  rfl

theorem begins_nested {value : Reader Json} {writes : Json → List Char → Prop}
    (hvalue : ReadsValues value writes)
    (hstart : ∀ json text, writes json text → BeginsApart ']' text) {json : Json}
    {text : List Char} (h : WritesNested writes json text) (rest : List Char) :
    ∃ c inside, text = c :: inside ∧ Begins (some value) c (inside ++ rest) json rest := by
  cases h with
  | emptyArray hblanks =>
    have htake := (encloses_takeArray value).takes_blanks (by decide) hblanks rest
    exact ⟨'[', _, rfl, begins_array htake⟩
  | array hes =>
    have hitem : ∀ json text rest, writes json text → Stops rest →
        Takes value (text ++ rest) json rest :=
      fun json text rest hjson hrest => hvalue hjson blanks_nil hrest
    have htake := (encloses_takeArray value).takes_list (repeats_entries value) hstart hitem
      (by decide) (by decide) hes rest
    exact ⟨'[', _, rfl, begins_array htake⟩
  | emptyObject hblanks =>
    have htake := (encloses_takeObject value).takes_blanks (by decide) hblanks rest
    exact ⟨'\x7b', _, rfl, begins_object htake⟩
  | object hms =>
    have htake := (encloses_takeObject value).takes_list (repeats_members value) member_begins
      (member_writes hvalue) (by decide) (by decide) hms rest
    exact ⟨'\x7b', _, rfl, begins_object htake⟩

theorem begins_writesFlat {json : Json} {text : List Char} (h : WritesFlat json text) :
    BeginsApart ']' text := by
  cases h with
  | null => exact ⟨'n', _, rfl, by decide, by decide⟩
  | false => exact ⟨'f', _, rfl, by decide, by decide⟩
  | true => exact ⟨'t', _, rfl, by decide, by decide⟩
  | number h _ =>
    obtain ⟨c, inside, rfl, hc⟩ := begins_numeral h
    refine ⟨c, inside, rfl, ?_, ?_⟩
    · have hall : ∀ c ∈ [' ', '\n', '\t', '\r'], ¬(c = '-' ∨ c.isDigit = true) :=
        List.all_iff_forall_prop.mp (by decide)
      exact Bool.eq_false_iff.mpr fun hblank => hall c (mem_of_isBlank hblank) hc
    · rintro rfl
      exact absurd hc (by decide)
  | string h =>
    obtain ⟨-⟩ := h
    exact ⟨'"', _, rfl, by decide, by decide⟩

theorem begins_writesNested {writes : Json → List Char → Prop} {json : Json}
    {text : List Char} (h : WritesNested writes json text) : BeginsApart ']' text := by
  cases h with
  | emptyArray | array => exact ⟨'[', _, rfl, by decide, by decide⟩
  | emptyObject | object => exact ⟨'\x7b', _, rfl, by decide, by decide⟩

theorem begins_writes (depth : Nat) (json : Json) (text : List Char)
    (h : Writes depth json text) : BeginsApart ']' text := by
  cases depth with
  | zero => exact begins_writesFlat h
  | succ depth =>
    cases h with
    | inl h => exact begins_writesFlat h
    | inr h => exact begins_writesNested h

/-- The reader of the values inside an array or an object, under an allowance. -/
def inner : (depth : Nat) → Option (Reader Json)
  | 0 => none
  | depth + 1 => some (takeValue depth)

theorem takeValue_of_begins {depth : Nat} {text : List Char} {c : Char} {inside : List Char}
    {json : Json} {rest : List Char} (hskip : skipBlanks text = c :: inside)
    (h : Begins (inner depth) c inside json rest) : Takes (takeValue depth) text json rest := by
  obtain ⟨shorter, h⟩ := h
  have hle : (c :: inside).length ≤ text.length := hskip ▸ length_skipBlanks_le text
  refine ⟨Nat.lt_of_lt_of_le shorter hle, ?_⟩
  unfold takeValue
  split
  · next heq =>
    rw [hskip] at heq
    cases heq
  · next c' inside' heq =>
    rw [hskip] at heq
    obtain ⟨rfl, rfl⟩ := List.cons.inj heq
    cases depth with
    | zero | succ depth =>
      simp only [inner] at h
      simp only [h, bind, Except.bind, pure, Except.pure]

/-- Every text that stands for a value is read as that value, under the allowance that
bounds its nesting. -/
theorem takeValue_writes (depth : Nat) : ReadsValues (takeValue depth) (Writes depth) := by
  have hread : ∀ {depth json text before rest}, Writes depth json text → Blanks before →
      (∃ c inside, text = c :: inside ∧ Begins (inner depth) c (inside ++ rest) json rest) →
      Takes (takeValue depth) (before ++ (text ++ rest)) json rest := by
    rintro depth json _ before rest h hbefore ⟨c, inside, rfl, hbegins⟩
    exact takeValue_of_begins (skipBlanks_padded hbefore (begins_writes depth json _ h) rest)
      hbegins
  induction depth with
  | zero =>
    intro json text before rest h hbefore hrest
    exact hread h hbefore (begins_flat h _ hrest)
  | succ depth ih =>
    intro json text before rest h hbefore hrest
    refine hread h hbefore ?_
    cases h with
    | inl h => exact begins_flat h _ hrest
    | inr h => exact begins_nested ih (begins_writes depth) h rest

/-- A value between blanks is parsed. -/
theorem parse_writes {json : Json} {text : List Char}
    (h : Padded (Writes nestingLimit json) text) : parse text = .ok json := by
  obtain ⟨before, inside, after, hbefore, hinside, hafter, rfl⟩ := h
  have hstops : Stops after := by
    simpa using stops_append hafter stops_nil
  have htake := takeValue_writes nestingLimit hinside hbefore hstops
  rw [← List.append_assoc] at htake
  obtain ⟨shorter, htake⟩ := htake
  have hskip : skipBlanks after = [] := List.dropWhile_eq_nil_iff.mpr hafter
  simp only [parse, htake, bind, Except.bind, hskip, pure, Except.pure]

end Json

end ForceDiagram
