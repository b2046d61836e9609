/-
ForceDiagram/Proofs/Checked/Entries.lean

Accesses that fail out of range.

Design.  The definitions of the layout look entries up with `xs[i]?`, or change them with
`modify`, and where there is no entry they quietly go on; so nothing that they give says
whether that ever happens.  Here an access out of range puts an end to everything, as in a
program that indexes its arrays: `entry` and `alter` answer with the index at fault, and a
`Checked` computation hands it on.

Every part of the layout gets a checked counterpart next to it, which makes all its
accesses in this way and in their order, and an equation which says that the counterpart
comes to its end with just what the part gives.  The equations for loops come from the two
at the end: a loop whose turns succeed under an invariant succeeds.
-/
namespace ForceDiagram

variable {α β : Type}

/-- An index that an array does not have. -/
structure OutOfRange where
  index : Nat
  size : Nat
deriving DecidableEq, Repr

/-- What comes to its end unless an access is out of range. -/
abbrev Checked (α : Type) := Except OutOfRange α

namespace Checked

@[simp] theorem ok_bind (a : α) (f : α → Checked β) : ((.ok a : Checked α) >>= f) = f a := rfl

@[simp] theorem pure_eq_ok (a : α) : (pure a : Checked α) = .ok a := rfl

/-- What is bound has come to its end if all has. -/
theorem bind_eq_ok {x : Checked α} {f : α → Checked β} {b : β} (h : (x >>= f) = .ok b) :
    ∃ a, x = .ok a ∧ f a = .ok b := by
  cases x with
  | error fault => cases h
  | ok a => exact ⟨a, rfl, h⟩

end Checked

/-! ### Accesses -/

/-- The entry at an index. -/
def entry (xs : Array α) (i : Nat) : Checked α :=
  match xs[i]? with
  | some a => .ok a
  | none => .error ⟨i, xs.size⟩

/-- Changes the entry at an index. -/
def alter (xs : Array α) (i : Nat) (f : α → α) : Checked (Array α) := do
  let _ ← entry xs i
  return xs.modify i f

variable {xs : Array α} {i : Nat} {a : α}

theorem entry_of_some (h : xs[i]? = some a) : entry xs i = .ok a := by rw [entry, h]

/-- An access fails just out of range. -/
theorem entry_eq_ok_iff : entry xs i = .ok a ↔ xs[i]? = some a := by
  refine ⟨fun h => ?_, entry_of_some⟩
  rw [entry] at h
  rcases hi : xs[i]? with - | b
  · rw [hi] at h
    cases h
  · rw [hi] at h
    rw [Except.ok.inj h]

theorem exists_entry (h : i < xs.size) : ∃ a, xs[i]? = some a :=
  ⟨xs[i], Array.getElem?_eq_getElem h⟩

theorem alter_of_lt (h : i < xs.size) (f : α → α) : alter xs i f = .ok (xs.modify i f) := by
  obtain ⟨a, ha⟩ := exists_entry h
  rw [alter, entry_of_some ha]
  rfl

/-- A change leaves every index in range. -/
theorem alter_modify_of_lt (h : i < xs.size) (j : Nat) (f g : α → α) :
    alter (xs.modify j g) i f = .ok ((xs.modify j g).modify i f) :=
  alter_of_lt (by rwa [Array.size_modify]) f

/-! ### Loops -/

/-- A loop comes to its end if every turn does, as long as the turns before keep to an
invariant. -/
theorem foldlM_eq_ok {P : β → Prop} {f : β → α → Checked β} {g : β → α → β} {b : β}
    (as : List α) (hb : P b)
    (hturn : ∀ b, P b → ∀ a ∈ as, f b a = .ok (g b a) ∧ P (g b a)) :
    as.foldlM f b = .ok (as.foldl g b) ∧ P (as.foldl g b) := by
  induction as generalizing b with
  | nil => exact ⟨rfl, hb⟩
  | cons a rest ih =>
    obtain ⟨hfirst, hkept⟩ := hturn b hb a List.mem_cons_self
    have hrest := ih hkept fun b hb a ha => hturn b hb a (List.mem_cons_of_mem _ ha)
    rw [List.foldlM_cons, hfirst]
    exact hrest

theorem mapM_eq_ok {f : α → Checked β} {g : α → β} {as : List α}
    (h : ∀ a ∈ as, f a = .ok (g a)) : as.mapM f = .ok (as.map g) := by
  induction as with
  | nil => rfl
  | cons a rest ih =>
    rw [List.mapM_cons, h a List.mem_cons_self,
      ih fun a ha => h a (List.mem_cons_of_mem _ ha)]
    rfl

end ForceDiagram
