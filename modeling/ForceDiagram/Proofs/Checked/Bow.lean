/-
ForceDiagram/Proofs/Checked/Bow.lean

Flags of edges, with every access checked.

Edges and flags lie in two arrays of one size.  Each edge in turn looks up its own flag and
the flags and ends of all later edges, up to the first that runs the other way and is not
flagged `back`; then it flags itself and that edge.  Between turns the flags are those
assigned to the edges that have had their turn, and behind them `back` for the edges that
are taken (`Flagged`), so the turns assign what is assigned without arrays
(`ofEndsChecked_eq`).
-/
import ForceDiagram.Graph.Bow
import ForceDiagram.Proofs.Checked.Entries

namespace ForceDiagram

namespace Bow

/-- The first of the given edges that runs the other way than edge `i` and is not taken. -/
def searchChecked (ends : Array Ends) (flags : Array Bow) (i : Nat) :
    (later : List Nat) → Checked (Option Nat)
  | [] => return none
  | j :: later => do
    if (← entry flags j) = .back then searchChecked ends flags i later
    else
      let own ← entry ends i
      let other ← entry ends j
      if other == own.swap then return some j else searchChecked ends flags i later

/-- Edge `i` looks for its partner, unless it is taken itself. -/
def turnChecked (ends : Array Ends) (flags : Array Bow) (i : Nat) : Checked (Array Bow) := do
  if (← entry flags i) = .back then return flags
  else
    match ← searchChecked ends flags i (List.range' (i + 1) (ends.size - (i + 1))) with
    | none => return flags
    | some j =>
      let flags ← alter flags i fun _ => .forth
      alter flags j fun _ => .back

/-- The flags of edges in their order. -/
def ofEndsChecked (ends : Array Ends) : Checked (Array Bow) :=
  (List.range ends.size).foldlM (turnChecked ends) (Array.replicate ends.size .straight)

/-- The flag of an edge that has not had its turn. -/
def ahead (taken : List Nat) (k : Nat) : Bow := if taken.contains k then .back else .straight

/-- The flags after the turns of the edges in front. -/
structure Flagged (size : Nat) (done : List Bow) (taken : List Nat) (flags : Array Bow) :
    Prop where
  size_eq : flags.size = size
  flag_done : ∀ k < done.length, flags[k]? = done[k]?
  flag_ahead : ∀ k, done.length ≤ k → k < size → flags[k]? = some (ahead taken k)

variable {ends : Array Ends} {flags : Array Bow} {done : List Bow} {taken : List Nat} {own : Ends}
  {size i j : Nat}

theorem ahead_eq_back_iff {k : Nat} : ahead taken k = .back ↔ taken.contains k = true := by
  unfold ahead
  split <;> simp_all

theorem ahead_of_free {k : Nat} (h : taken.contains k = false) : ahead taken k = .straight :=
  if_neg (by simpa using h)

/-- The search finds the partner that is found without arrays. -/
theorem searchChecked_eq (hi : ends[i]? = some own) {later : List (Ends × Nat)}
    (hlater : ∀ p ∈ later, ends[p.2]? = some p.1 ∧ flags[p.2]? = some (ahead taken p.2)) :
    searchChecked ends flags i (later.map (·.2)) = .ok (partner? taken own later) := by
  induction later with
  | nil => rfl
  | cons p rest ih =>
    obtain ⟨hends, hflag⟩ := hlater p List.mem_cons_self
    have hrest := ih fun p hp => hlater p (List.mem_cons_of_mem _ hp)
    rw [List.map_cons, searchChecked, entry_of_some hflag, Checked.ok_bind, partner?,
      List.find?_cons]
    rcases htaken : taken.contains p.2 with - | -
    · rw [if_neg (by simp [ahead_of_free htaken]), entry_of_some hi, entry_of_some hends,
        Checked.ok_bind, Checked.ok_bind]
      rcases hother : p.1 == own.swap with - | -
      · exact hrest
      · rfl
    · rw [if_pos (ahead_eq_back_iff.mpr htaken), Bool.not_true, Bool.and_false]
      exact hrest

/-- A partner is one of the later edges, and free. -/
theorem mem_of_partner {later : List (Ends × Nat)} (h : partner? taken own later = some j) :
    ∃ p ∈ later, p.2 = j := by
  obtain ⟨p, hp, rfl⟩ := Option.map_eq_some_iff.mp h
  exact ⟨p, List.mem_of_find?_eq_some hp, rfl⟩

/-- An edge that keeps its flag has had its turn. -/
theorem Flagged.keep (h : Flagged size done taken flags) (hsize : done.length < size) {flag : Bow}
    (hflag : ahead taken done.length = flag) : Flagged size (done ++ [flag]) taken flags where
  size_eq := h.size_eq
  flag_done := by
    intro k hk
    rw [List.length_append, List.length_singleton] at hk
    rcases Nat.lt_or_eq_of_le (Nat.le_of_lt_succ hk) with hlt | rfl
    · rw [List.getElem?_append_left hlt]
      exact h.flag_done k hlt
    · rw [List.getElem?_concat_length, ← hflag]
      exact h.flag_ahead _ (Nat.le_refl _) hsize
  flag_ahead := by
    intro k hk
    rw [List.length_append, List.length_singleton] at hk
    exact h.flag_ahead k (by omega)

/-- An edge flags itself and its partner. -/
theorem Flagged.pair (h : Flagged size done taken flags) (hsize : done.length < size)
    (hj : done.length < j) :
    Flagged size (done ++ [.forth]) (j :: taken)
      ((flags.modify done.length fun _ => .forth).modify j fun _ => .back) where
  size_eq := by rw [Array.size_modify, Array.size_modify, h.size_eq]
  flag_done := by
    intro k hk
    rw [List.length_append, List.length_singleton] at hk
    rw [Array.getElem?_modify, if_neg (by omega), Array.getElem?_modify]
    rcases Nat.lt_or_eq_of_le (Nat.le_of_lt_succ hk) with hlt | rfl
    · rw [if_neg (by omega), List.getElem?_append_left hlt]
      exact h.flag_done k hlt
    · rw [if_pos rfl, List.getElem?_concat_length, h.flag_ahead _ (Nat.le_refl _) hsize]
      rfl
  flag_ahead := by
    intro k hk hksize
    rw [List.length_append, List.length_singleton] at hk
    have hold := h.flag_ahead k (by omega) hksize
    rw [Array.getElem?_modify, Array.getElem?_modify, if_neg (by omega : done.length ≠ k), hold]
    by_cases hkj : j = k
    · have hback : ahead (j :: taken) k = .back := ahead_eq_back_iff.mpr (by simp [hkj])
      rw [if_pos hkj, hback]
      rfl
    · have hsame : ahead (j :: taken) k = ahead taken k := by
        unfold ahead
        simp [Ne.symm hkj]
      rw [if_neg hkj, hsame]

variable {rest : List Ends}

/-- The edges behind the one whose turn it is, as its search meets them. -/
theorem Flagged.later (h : Flagged ends.size done taken flags)
    (hrest : ends.toList.drop done.length = own :: rest) :
    ∀ p ∈ rest.zipIdx (done.length + 1), ends[p.2]? = some p.1 ∧
      flags[p.2]? = some (ahead taken p.2) ∧ done.length < p.2 ∧ p.2 < ends.size := by
  intro p hp
  obtain ⟨hbehind, hp⟩ := List.mem_zipIdx_iff_le_and_getElem?_sub.mp hp
  have hends : ends[p.2]? = some p.1 := by
    have hdrop : ends.toList[p.2]? = (own :: rest)[p.2 - done.length]? := by
      rw [← hrest, List.getElem?_drop, Nat.add_sub_cancel' (by omega)]
    rw [← Array.getElem?_toList, hdrop, ← hp,
      show p.2 - done.length = p.2 - (done.length + 1) + 1 by omega, List.getElem?_cons_succ]
  have hsize := (Array.getElem?_eq_some_iff.mp hends).1
  exact ⟨hends, h.flag_ahead _ (by omega) hsize, by omega, hsize⟩

/-- The turn of one edge assigns its flag, and takes its partner. -/
theorem Flagged.exists_turn (h : Flagged ends.size done taken flags)
    (hrest : ends.toList.drop done.length = own :: rest) :
    ∃ flag taken' flags', turnChecked ends flags done.length = .ok flags' ∧
      Flagged ends.size (done ++ [flag]) taken' flags' ∧
      assign taken ((own :: rest).zipIdx done.length) =
        flag :: assign taken' (rest.zipIdx (done.length + 1)) := by
  have hown : ends[done.length]? = some own := by
    rw [← Array.getElem?_toList, ← Nat.add_zero done.length, ← List.getElem?_drop, hrest]
    rfl
  have hlt := (Array.getElem?_eq_some_iff.mp hown).1
  have hlater := h.later hrest
  have hsearch : searchChecked ends flags done.length
      (List.range' (done.length + 1) (ends.size - (done.length + 1))) =
        .ok (partner? taken own (rest.zipIdx (done.length + 1))) := by
    have hcount := congrArg List.length hrest
    rw [List.length_drop, Array.length_toList, List.length_cons] at hcount
    rw [← searchChecked_eq hown fun p hp => ⟨(hlater p hp).1, (hlater p hp).2.1⟩,
      List.zipIdx_map_snd, show ends.size - (done.length + 1) = rest.length by omega]
  have hflag := h.flag_ahead done.length (Nat.le_refl _) hlt
  rw [turnChecked, entry_of_some hflag, Checked.ok_bind, List.zipIdx_cons, assign]
  -- a free edge looks for its partner, one that is taken has been flagged by it
  rcases htaken : taken.contains done.length with - | -
  · have hfree := ahead_of_free htaken
    rw [hfree, if_neg (by simp), if_neg Bool.false_ne_true, hsearch, Checked.ok_bind]
    rcases hpartner : partner? taken own (rest.zipIdx (done.length + 1)) with - | j
    · exact ⟨_, _, _, rfl, h.keep hlt hfree, rfl⟩
    · obtain ⟨p, hp, rfl⟩ := mem_of_partner hpartner
      obtain ⟨-, -, hbehind, hsize⟩ := hlater p hp
      refine ⟨_, _, _, ?_, h.pair hlt hbehind, rfl⟩
      rw [← h.size_eq] at hlt hsize
      simp only
      rw [alter_of_lt hlt, Checked.ok_bind, alter_modify_of_lt hsize]
  · have hback := ahead_eq_back_iff.mpr htaken
    rw [hback, if_pos rfl, if_pos rfl]
    exact ⟨_, _, _, rfl, h.keep hlt hback, rfl⟩

/-- The turns of all edges that are left. -/
theorem Flagged.foldlM_turns (h : Flagged ends.size done taken flags)
    (hdone : done.length ≤ ends.size) (hrest : ends.toList.drop done.length = rest) :
    (List.range' done.length rest.length).foldlM (turnChecked ends) flags =
      .ok (done ++ assign taken (rest.zipIdx done.length)).toArray := by
  induction rest generalizing done taken flags with
  | nil =>
    -- all edges have had their turn, so all flags are assigned
    have hall : ends.size ≤ done.length := by
      have hle := List.drop_eq_nil_iff.mp hrest
      rwa [Array.length_toList] at hle
    have hflags : flags = (done ++ assign taken []).toArray := by
      apply Array.ext_getElem?
      intro k
      refine Eq.trans ?_ List.getElem?_toArray.symm
      rw [assign, List.append_nil]
      rcases Nat.lt_or_ge k done.length with hk | hk
      · exact h.flag_done k hk
      · rw [List.getElem?_eq_none hk, Array.getElem?_eq_none (by rw [h.size_eq]; omega)]
    rw [hflags]
    rfl
  | cons own rest ih =>
    obtain ⟨flag, taken', flags', hturned, hflagged, hassign⟩ := h.exists_turn hrest
    have hcount := congrArg List.length hrest
    rw [List.length_drop, Array.length_toList, List.length_cons] at hcount
    have hnext : (done ++ [flag]).length = done.length + 1 := by
      rw [List.length_append, List.length_singleton]
    have hdrop : ends.toList.drop (done ++ [flag]).length = rest := by
      rw [hnext, ← List.drop_drop, hrest]
      rfl
    have hgo := ih hflagged (by omega) hdrop
    rw [hnext] at hgo
    rw [List.length_cons, List.range'_succ, List.foldlM_cons, hturned, Checked.ok_bind, hgo,
      hassign, List.append_assoc]
    rfl

/-- The flags are those assigned without arrays. -/
theorem ofEndsChecked_eq (ends : Array Ends) :
    ofEndsChecked ends = .ok (ofEnds ends.toList).toArray := by
  have hstart : Flagged ends.size [] [] (Array.replicate ends.size .straight) := by
    refine ⟨Array.size_replicate, fun k hk => absurd hk (Nat.not_lt_zero k), fun k _ hk => ?_⟩
    rw [Array.getElem?_replicate, if_pos hk]
    rfl
  have hturns := hstart.foldlM_turns (Nat.zero_le _) rfl
  rw [Array.length_toList] at hturns
  rw [ofEndsChecked, List.range_eq_range']
  exact hturns

end Bow

end ForceDiagram
