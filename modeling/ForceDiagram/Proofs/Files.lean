/-
ForceDiagram/Proofs/Files.lean

Writing a file and reading it back.

Whether a file can be written says nothing about its content: a path has to lead to a
place below a directory where no directory stands (`LeadsTo`).  Putting a file
there leaves every directory one, so the same path leads there again and what was
written is read (`read_write`).  Files in the working directory are the same by a
path from there and by one from the root (`walk_home`).

The parts of a path are what stands between its slashes (`partsOf_eq`).
-/
import ForceDiagram.Files.Basic
import Mathlib.Data.String.Basic

namespace ForceDiagram

namespace Files

variable {home : List String} {files : Files home} {path : String} {place : List String}
  {content : List UInt8}

/-! ### Putting a file at a place -/

/-- The working directory and those above it are directories. -/
theorem at?_of_isAbove (h : isAbove place = true) : files.at? place = some .directory := if_pos h

theorem isAbove_eq_false (h : files.at? place ≠ some .directory) : isAbove place = false := by
  rw [Bool.eq_false_iff]
  exact fun habove => h (at?_of_isAbove habove)

theorem at?_put_self (h : files.at? place ≠ some .directory) (content : List UInt8) :
    (files.put place content).at? place = some (.file content) := by
  rw [at?, if_neg (by simp [isAbove_eq_false h]), put]
  simp

theorem find?_put {other : List String} (hne : other ≠ place) :
    (files.put place content).entries.find? (fun entry => entry.1 == other) =
      files.entries.find? fun entry => entry.1 == other := by
  have hsame : (fun entry : List String × FileEntry =>
      decide ((entry.1 != place) = true ∧ (entry.1 == other) = true)) =
        fun entry => entry.1 == other := by
    funext entry
    rw [Bool.eq_iff_iff, decide_eq_true_iff, and_iff_right_iff_imp, beq_iff_eq]
    rintro heq
    rw [heq]
    exact bne_iff_ne.mpr hne
  rw [put, List.find?_cons_of_neg (by simpa using hne.symm), List.find?_filter, hsame]

theorem any_isPrefixOf_put {other : List String}
    (h : (files.entries.any fun entry => other.isPrefixOf entry.1) = true) :
    ((files.put place content).entries.any fun entry => other.isPrefixOf entry.1) = true := by
  obtain ⟨entry, hmem, hprefix⟩ := List.any_eq_true.mp h
  rw [put, List.any_cons, Bool.or_eq_true, List.any_eq_true]
  rcases heq : entry.1 != place with - | -
  · rw [bne_eq_false_iff_eq] at heq
    exact .inl (heq ▸ hprefix)
  · exact .inr ⟨entry, List.mem_filter.mpr ⟨hmem, heq⟩, hprefix⟩

/-- A file takes no directory's place. -/
theorem at?_put_of_directory (h : files.at? place ≠ some .directory) (content : List UInt8)
    {other : List String} (hother : files.at? other = some .directory) :
    (files.put place content).at? other = some .directory := by
  have hne : other ≠ place := by
    rintro rfl
    exact h hother
  unfold at? at hother ⊢
  rcases habove : isAbove other with - | -
  · simp only [habove, Bool.false_eq_true, if_false, find?_put hne] at hother ⊢
    split at hother
    · exact hother
    · split at hother
      · next hany => rw [if_pos (any_isPrefixOf_put hany)]
      · nomatch hother
  · rw [if_pos rfl]

/-- A path leads where it led before. -/
theorem walk_put (h : files.at? place ≠ some .directory) (content : List UInt8)
    {start parent : List String} {parts : List String}
    (hwalk : files.walk start parts = .ok parent) :
    (files.put place content).walk start parts = .ok parent := by
  induction parts generalizing start with
  | nil => exact hwalk
  | cons part parts ih =>
    unfold walk at hwalk ⊢
    split at hwalk
    · next hdirectory =>
      rw [at?_put_of_directory h content hdirectory]
      split at hwalk
      · nomatch hwalk
      · next hlength =>
        simp only [if_neg hlength]
        exact ih hwalk
    · nomatch hwalk
    · nomatch hwalk

theorem walk_concat {start parent parts : List String} {name : String}
    (hwalk : files.walk start parts = .ok parent) (hparent : files.at? parent = some .directory)
    (hlength : name.utf8ByteSize ≤ partLimit) :
    files.walk start (parts ++ [name]) = .ok (enter home parent name) := by
  induction parts generalizing start with
  | nil =>
    cases hwalk
    rw [List.nil_append, walk, hparent]
    exact if_neg (Nat.not_lt.mpr hlength)
  | cons part parts ih =>
    unfold walk at hwalk
    rw [List.cons_append, walk]
    split at hwalk
    · next hdirectory =>
      split at hwalk
      · nomatch hwalk
      · next hpart => rw [if_neg hpart, ih hwalk]
    · nomatch hwalk
    · nomatch hwalk

/-! ### The way to the working directory -/

theorem isAbove_replicate (n : Nat) : isAbove (List.replicate n "..") = true := by simp [isAbove]

/-- A part of the way from the root to the working directory takes a step up back. -/
theorem enter_home {n : Nat} {part : String} (hpart : home[home.length - (n + 1)]? = some part)
    (hname : part ≠ "" ∧ part ≠ "." ∧ part ≠ "..") :
    enter home (List.replicate (n + 1) "..") part = List.replicate n ".." := by
  obtain ⟨hempty, hdot, hup⟩ := hname
  rw [enter, if_neg (by simp [hempty, hdot]), if_pos (isAbove_replicate _), if_neg (by simp [hup]),
    List.length_replicate, if_pos (by simp [hpart]), List.dropLast_replicate, Nat.add_sub_cancel]

/-- **The working directory has one place.**  The way to it from the root leads to the place where
a walk that does not begin at the root begins. -/
theorem walk_home (files : Files home)
    (hnames : ∀ part ∈ home, part ≠ "" ∧ part ≠ "." ∧ part ≠ "..")
    (hlengths : ∀ part ∈ home, part.utf8ByteSize ≤ partLimit) (rest : List String) :
    files.walk (root home) (home ++ rest) = files.walk [] rest := by
  -- with `n` steps up left, the last `n` parts of the way are still to come
  have hleft : ∀ n ≤ home.length,
      files.walk (List.replicate n "..") (home.drop (home.length - n) ++ rest) =
        files.walk [] rest := by
    intro n hn
    induction n with
    | zero => rw [Nat.sub_zero, List.drop_length]; rfl
    | succ n ih =>
      have hlt : home.length - (n + 1) < home.length := by omega
      have hpart := List.getElem?_eq_getElem hlt
      have hmem := List.getElem_mem hlt
      have hnext : home.length - (n + 1) + 1 = home.length - n := by omega
      rw [List.drop_eq_getElem_cons hlt, List.cons_append, walk,
        at?_of_isAbove (isAbove_replicate _), hnext]
      dsimp only
      rw [if_neg (Nat.not_lt.mpr (hlengths _ hmem)), enter_home hpart (hnames _ hmem)]
      exact ih (Nat.le_of_succ_le hn)
  have hwhole := hleft home.length le_rfl
  rwa [Nat.sub_self, List.drop_zero] at hwhole

/-! ### Reading and writing -/

/-- A walk begins in a directory. -/
theorem isAbove_origin (home : List String) (path : String) :
    isAbove (origin home path) = true := by
  unfold origin
  split
  · exact isAbove_replicate _
  · rfl

/-- A path that leads to a place where a file can be put. -/
structure LeadsTo (files : Files home) (path : String) (place : List String) : Prop where
  fault : pathFault? path = none
  parts : ∃ parents name parent, partsOf path = parents ++ [name] ∧ name ≠ "" ∧
    name.utf8ByteSize ≤ partLimit ∧ files.walk (origin home path) parents = .ok parent ∧
    files.at? parent = some .directory ∧ enter home parent name = place
  free : files.at? place ≠ some .directory

/-- What a write that succeeds has found on its way. -/
theorem exists_parent_of_write {files' : Files home} (h : files.write path content = .ok files') :
    let parts := (partsOf path).reverse
    let named := parts.dropWhile (· == "")
    pathFault? path = none ∧ parts.head? ≠ some "" ∧ (named.headD "").utf8ByteSize ≤ partLimit ∧
      ∃ parent, files.walk (origin home path) named.tail.reverse = .ok parent ∧
        files.at? parent = some .directory ∧
        files.at? (enter home parent (named.headD "")) ≠ some .directory ∧
        files' = files.put (enter home parent (named.headD "")) content := by
  intro parts named
  simp only [write, bind, Except.bind, throw, throwThe, MonadExceptOf.throw, pure,
    Except.pure] at h
  rcases hfault : pathFault? path with - | error
  · simp only [hfault] at h
    split at h
    · nomatch h
    next parent hwalk =>
    split at h
    · nomatch h
    · nomatch h
    next hparent =>
    split at h
    · nomatch h
    next hhead =>
    split at h
    · nomatch h
    next hlength =>
    split at h
    · nomatch h
    next hfree =>
    exact ⟨rfl, fun heq => hhead (beq_iff_eq.mpr heq), Nat.not_lt.mp hlength, parent, hwalk,
      hparent, fun heq => hfree (beq_iff_eq.mpr heq), (Except.ok.inj h).symm⟩
  · simp only [hfault] at h
    nomatch h

/-- A file that was written stands where its path leads. -/
theorem leadsTo_of_write {files' : Files home} (h : files.write path content = .ok files') :
    ∃ place, files.LeadsTo path place ∧ files' = files.put place content := by
  obtain ⟨hfault, hhead, hlength, parent, hwalk, hparent, hfree, hput⟩ := exists_parent_of_write h
  refine ⟨_, ⟨hfault, ?_, hfree⟩, hput⟩
  rcases hreverse : (partsOf path).reverse with - | ⟨name, up⟩
  · -- a path of no parts leads to where walks begin
    rw [hreverse] at hwalk hfree
    cases hwalk
    exact absurd (at?_of_isAbove (isAbove_origin home path)) hfree
  · rw [hreverse] at hwalk hhead hlength
    have hname : name ≠ "" := by simpa using hhead
    have hnamed : (name :: up).dropWhile (· == "") = name :: up :=
      List.dropWhile_cons_of_neg (by simpa using hname)
    rw [hnamed] at hwalk hlength ⊢
    refine ⟨up.reverse, name, parent, ?_, hname, hlength, hwalk, hparent, rfl⟩
    rw [← List.reverse_cons, ← hreverse, List.reverse_reverse]

/-- Files are written at the places that their paths lead to, whatever their content. -/
theorem write_of_leadsTo (h : files.LeadsTo path place) (content : List UInt8) :
    files.write path content = .ok (files.put place content) := by
  obtain ⟨hfault, ⟨parents, name, parent, hparts, hname, hlength, hwalk, hparent, rfl⟩,
    hfree⟩ := h
  have hreverse : (partsOf path).reverse = name :: parents.reverse := by
    rw [hparts, List.reverse_append]
    rfl
  have hnamed : (name :: parents.reverse).dropWhile (· == "") = name :: parents.reverse :=
    List.dropWhile_cons_of_neg (by simpa using hname)
  simp only [write, hfault, hreverse, hnamed, List.tail_cons, List.reverse_reverse, hwalk,
    List.headD_cons, List.head?_cons]
  simp [hparent, hname, hfree, Nat.not_lt.mpr hlength, bind, Except.bind, pure, Except.pure]

/-- A file is read by a path that leads to it. -/
theorem read_of_walk (hfault : pathFault? path = none)
    (hwalk : files.walk (origin home path) (partsOf path) = .ok place)
    (hfile : files.at? place = some (.file content)) : files.read path = .ok content := by
  simp only [read, hfault, hwalk]
  simp [hfile, bind, Except.bind, pure, Except.pure]

/-- A file put where a path leads is read by the path. -/
theorem LeadsTo.read_put (h : files.LeadsTo path place) (content : List UInt8) :
    (files.put place content).read path = .ok content := by
  obtain ⟨hfault, ⟨parents, name, parent, hparts, -, hlength, hwalk, hparent, rfl⟩, hfree⟩ := h
  refine read_of_walk hfault ?_ (at?_put_self hfree content)
  rw [hparts]
  exact walk_concat (walk_put hfree content hwalk) (at?_put_of_directory hfree content hparent)
    hlength

/-- **What was written is read.** -/
theorem read_write {files' : Files home} (h : files.write path content = .ok files') :
    files'.read path = .ok content := by
  obtain ⟨place, hleads, rfl⟩ := leadsTo_of_write h
  exact hleads.read_put content

/-! ### Parts of paths -/

open String in
/-- From a position in a text on, the parts are cut at slashes, and the first begins with what has
been passed since the last one. -/
theorem splitOnAux_of_valid (done passed rest : List Char) (parts : List String) :
    (ofList (done ++ passed ++ rest)).splitOnAux "/" ⟨utf8Len done⟩
        ⟨utf8Len done + utf8Len passed⟩ 0 parts =
      parts.reverse ++ (rest.splitOnPPrepend (· == '/') passed.reverse).map ofList := by
  have hstay : ∀ i : Pos.Raw, i.unoffsetBy 0 = i := fun i => Pos.Raw.ext (Nat.sub_zero _)
  induction rest generalizing done passed parts with
  | nil =>
    have hend := (atEnd_of_valid (done ++ passed) []).mpr rfl
    have hpart := extract_of_valid done passed []
    rw [utf8Len_append] at hend
    rw [splitOnAux, if_pos hend]
    simpa using hpart
  | cons c rest ih =>
    have hgoes := (atEnd_of_valid (done ++ passed) (c :: rest)).not.mpr (List.cons_ne_nil c rest)
    have hget := get_of_valid (done ++ passed) (c :: rest)
    have hnext := next_of_valid (done ++ passed) c rest
    have hslash : (0 : Pos.Raw).get "/" = '/' := by decide
    rw [utf8Len_append] at hgoes hget hnext
    rw [splitOnAux, if_neg hgoes, hget, hslash, List.headD_cons, hnext,
      List.splitOnPPrepend_cons_eq_if]
    split
    · next hc =>
      -- a slash ends the part that has been passed
      obtain rfl := beq_iff_eq.mp hc
      have hpart := extract_of_valid done passed ('/' :: rest)
      have hone : (0 : Pos.Raw).next "/" = ⟨1⟩ := by decide
      have hend : Pos.Raw.atEnd "/" ⟨1⟩ = true := by decide
      have hback : (⟨utf8Len done + utf8Len passed + '/'.utf8Size⟩ : Pos.Raw).unoffsetBy ⟨1⟩ =
          ⟨utf8Len done + utf8Len passed⟩ := Pos.Raw.ext (Nat.add_sub_cancel _ _)
      simp only [hone, hend, if_true, hback, hpart]
      simpa [Nat.add_assoc] using ih (done ++ passed ++ ['/']) [] (ofList passed :: parts)
    · rw [hstay, hnext]
      simpa [Nat.add_assoc] using ih done (passed ++ [c]) parts

/-- The parts of a path are what stands between its slashes. -/
theorem partsOf_eq (path : String) :
    partsOf path = (path.toList.splitOn '/').map String.ofList := by
  have haux := splitOnAux_of_valid [] [] path.toList []
  rw [partsOf, String.splitOn, if_neg (by decide)]
  simpa [List.splitOn] using haux

end Files

end ForceDiagram
