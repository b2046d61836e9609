/-
ForceDiagram/Proofs/Lists.lean

Where a run of characters ends: a text that is put in front of another one, all of its
characters of one class, is read up to the other one if that does not go on with the class.
-/
import Mathlib.Data.List.TakeWhile

namespace ForceDiagram

section Runs

variable {α : Type} {p : α → Bool} {front rest : List α}

theorem takeWhile_append_of_head (hfront : ∀ a ∈ front, p a = true)
    (hrest : ∀ a, rest.head? = some a → p a = false) : (front ++ rest).takeWhile p = front := by
  rw [List.takeWhile_append_of_pos hfront]
  cases rest with
  | nil => exact List.append_nil front
  | cons a rest =>
    have ha := hrest a rfl
    rw [List.takeWhile_cons_of_neg (by simp [ha]), List.append_nil]

theorem dropWhile_append_of_head (hfront : ∀ a ∈ front, p a = true)
    (hrest : ∀ a, rest.head? = some a → p a = false) : (front ++ rest).dropWhile p = rest := by
  rw [List.dropWhile_append_of_pos hfront]
  cases rest with
  | nil => rfl
  | cons a rest =>
    have ha := hrest a rfl
    rw [List.dropWhile_cons_of_neg (by simp [ha])]

/-- A text that begins with a character of another class. -/
theorem head?_cons_eq_false {a : α} (ha : p a = false) (rest : List α) :
    ∀ b, (a :: rest).head? = some b → p b = false := by
  rintro b ⟨⟩
  exact ha

end Runs

end ForceDiagram
