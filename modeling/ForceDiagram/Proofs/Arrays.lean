/-
ForceDiagram/Proofs/Arrays.lean

What can be read off the entries of an array or a list is kept by changes that
do not touch what is read.
-/
import ForceDiagram.Plane.Vec

namespace ForceDiagram

variable {α β : Type}

theorem map_modify_of_eq {f : α → α} {g : α → β} (h : ∀ a, g (f a) = g a) (xs : Array α)
    (i : Nat) : (xs.modify i f).map g = xs.map g := by
  apply Array.ext_getElem?
  intro j
  simp only [Array.getElem?_map, Array.getElem?_modify]
  split
  · rw [Option.map_map]
    exact congrArg (Option.map · _) (funext h)
  · rfl

theorem map_map_of_eq {f : α → α} {g : α → β} (h : ∀ a, g (f a) = g a) (xs : Array α) :
    (xs.map f).map g = xs.map g := by
  rw [Array.map_map]
  exact congrArg (Array.map · xs) (funext h)

theorem map_mapIdx_of_eq {f : Nat → α → α} {g : α → β} (h : ∀ i a, g (f i a) = g a)
    (xs : Array α) : (xs.mapIdx f).map g = xs.map g := by
  apply Array.ext_getElem?
  intro j
  simp only [Array.getElem?_map, Array.getElem?_mapIdx, Option.map_map]
  exact congrArg (Option.map · _) (funext (h j))

theorem map_mapIdx {γ : Type} (f : Nat → α → β) (g : β → γ) (xs : List α) :
    (xs.mapIdx f).map g = xs.mapIdx fun i a => g (f i a) := by
  rw [List.mapIdx_eq_zipIdx_map, List.map_map, List.mapIdx_eq_zipIdx_map]
  rfl

/-- What is read off numbered entries without their numbers. -/
theorem map_mapIdx_eq_map {γ : Type} {f : Nat → α → β} {g : β → γ} {h : α → γ}
    (hread : ∀ i a, g (f i a) = h a) (xs : List α) : (xs.mapIdx f).map g = xs.map h := by
  apply List.ext_getElem?
  intro i
  simp only [List.getElem?_map, List.getElem?_mapIdx, Option.map_map]
  exact congrArg (Option.map · _) (funext (hread i))

/-- Two readings of entries are equal if they are of each entry. -/
theorem map_beq_map [BEq β] {f g : α → β} {xs : Array α}
    (h : ∀ a ∈ xs, (f a == g a) = true) : (xs.map f == xs.map g) = true := by
  rw [Array.beq_eq_decide, dif_pos (by rw [Array.size_map, Array.size_map]), decide_eq_true_iff]
  intro i hi
  rw [Array.getElem_map, Array.getElem_map]
  exact h _ (Array.getElem_mem _)

theorem forall_mem_mapIdx {f : Nat → α → β} {P : β → Prop} {xs : List α} :
    (∀ b ∈ xs.mapIdx f, P b) ↔ ∀ i (h : i < xs.length), P (f i xs[i]) := by
  refine ⟨fun hall i hi => hall _ (List.mem_mapIdx.mpr ⟨i, hi, rfl⟩), fun hall b hb => ?_⟩
  obtain ⟨i, hi, rfl⟩ := List.mem_mapIdx.mp hb
  exact hall i hi

end ForceDiagram
