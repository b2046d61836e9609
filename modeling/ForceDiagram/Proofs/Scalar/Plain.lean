/-
ForceDiagram/Proofs/Scalar/Plain.lean

Numbers in single precision are written in signs, and so without special characters:
a minus, digits and a point, or one of three words.
-/
import ForceDiagram.Proofs.Markup.Escape
import ForceDiagram.Scalar.Single

namespace ForceDiagram

open Markup (Plain Signs signs_append signs_toString)

theorem Decimal.signs_zeros (count : Nat) : Signs (Decimal.zeros count).toList := by
  rw [Decimal.zeros, String.toList_ofList]
  intro c hc
  rw [List.eq_of_mem_replicate hc]
  decide

/-- The plain layout is digits with at most one point. -/
theorem Decimal.signs_plain (d : Decimal) : Signs d.plain.toList := by
  have hdigits : Signs (toString d.digits).toList := signs_toString d.digits
  have htake (k : Nat) : Signs ((toString d.digits).toList.take k) :=
    fun c hc => hdigits c (List.mem_of_mem_take hc)
  have hdrop (k : Nat) : Signs ((toString d.digits).toList.drop k) :=
    fun c hc => hdigits c (List.mem_of_mem_drop hc)
  unfold Decimal.plain
  dsimp only
  split
  · simp only [String.toList_append, String.toList_ofList, signs_append]
    exact ⟨hdigits, signs_zeros _⟩
  · split
    · simp only [String.toList_append, String.toList_ofList, signs_append]
      exact ⟨⟨by decide, signs_zeros _⟩, hdigits⟩
    · simp only [String.toList_append, String.toList_ofList, signs_append]
      exact ⟨⟨htake _, by decide⟩, hdrop _⟩

theorem Single.signs_text (x : Float32) : Signs (Scalar.text x).toList := by
  change Signs (Single.text x).toList
  unfold Single.text
  split
  · decide
  · split <;> decide
  · dsimp only
    split
    · simp only [String.toList_append, signs_append]
      exact ⟨by decide, Decimal.signs_plain _⟩
    · exact Decimal.signs_plain _

/-- **No number in single precision is written with a special character.** -/
theorem Single.plain_text (x : Float32) : Plain (Scalar.text x).toList := (signs_text x).plain

end ForceDiagram
