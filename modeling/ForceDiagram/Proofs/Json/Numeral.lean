/-
ForceDiagram/Proofs/Json/Numeral.lean

Every way of writing a number is read.

A number has no end of its own: its digits, its fraction and its exponent go on as long as
they can.  So what stands behind a number matters (`Stops`), and each part is read whole
because the next one begins with a character that is no digit.
-/
import ForceDiagram.Json.Grammar
import ForceDiagram.Proofs.Json.Strings
import ForceDiagram.Proofs.Lists

namespace ForceDiagram

namespace Json

/-- A text that does not go on with a number. -/
def Stops (text : List Char) : Prop :=
  ∀ c, text.head? = some c → c.isDigit = false ∧ c ≠ '.' ∧ c ≠ 'e' ∧ c ≠ 'E'

namespace Numeral

/-! ### Fraction and exponent -/

theorem readFraction_absent {rest : List Char} (hpoint : rest.head? ≠ some '.') :
    ∃ le, readFraction rest = .ok (none, ⟨rest, le⟩) := by
  refine ⟨Nat.le_refl _, ?_⟩
  cases rest with
  | nil => rfl
  | cons c rest =>
    have hc : c ≠ '.' := by
      rintro rfl
      exact hpoint rfl
    simp [readFraction, hc]

theorem readFraction_writes {fraction : Option (List Char)} {text : List Char}
    (h : WritesFraction fraction text) {rest : List Char}
    (hdigit : ∀ c, rest.head? = some c → c.isDigit = false) (hpoint : rest.head? ≠ some '.') :
    ∃ le, readFraction (text ++ rest) = .ok (fraction, ⟨rest, le⟩) := by
  cases h with
  | absent => exact readFraction_absent hpoint
  | present hdigits =>
    next digits =>
    have htake := takeWhile_append_of_head hdigits.digits hdigit
    have hdrop := dropWhile_append_of_head hdigits.digits hdigit
    refine ⟨by simp only [List.length_append]; omega, ?_⟩
    simp only [List.cons_append, readFraction]
    split
    · next heq => exact absurd (htake.symm.trans heq) hdigits.nonempty
    · simp only [htake, hdrop]

/-- The first of a run of digits is no sign. -/
theorem head?_digits {digits : List Char} (h : Digits digits) (rest : List Char) :
    (digits ++ rest).head? ≠ some '-' ∧ (digits ++ rest).head? ≠ some '+' := by
  obtain ⟨hne, hdigits⟩ := h
  cases digits with
  | nil => exact absurd rfl hne
  | cons d digits =>
    have hd := hdigits d List.mem_cons_self
    refine ⟨?_, ?_⟩
    all_goals
      rintro heq
      rw [Option.some.inj heq] at hd
      exact absurd hd (by decide)

theorem readSignedDigits_writes {lowers : Bool} {sign digits : List Char}
    (hsign : WritesSign lowers sign) (hdigits : Digits digits) {rest : List Char}
    (hdigit : ∀ c, rest.head? = some c → c.isDigit = false) :
    ∃ le, readSignedDigits (sign ++ digits ++ rest) = .ok ((lowers, digits), ⟨rest, le⟩) := by
  have htake := takeWhile_append_of_head hdigits.digits hdigit
  have hdrop := dropWhile_append_of_head hdigits.digits hdigit
  refine ⟨by simp only [List.length_append]; omega, ?_⟩
  have hrun : ∀ run, run = (digits ++ rest).takeWhile Char.isDigit → run ≠ [] := by
    rintro _ rfl
    rw [htake]
    exact hdigits.nonempty
  cases hsign with
  | absent =>
    obtain ⟨hminus, hplus⟩ := head?_digits hdigits rest
    simp only [List.nil_append, readSignedDigits, hminus, hplus]
    simp
    split
    · next heq => exact absurd rfl (hrun _ heq.symm)
    · simp [htake, hdrop]
  | plus =>
    simp only [List.cons_append, List.nil_append, readSignedDigits]
    simp
    split
    · next heq => exact absurd rfl (hrun _ heq.symm)
    · simp [htake, hdrop]
  | minus =>
    simp only [List.cons_append, List.nil_append, readSignedDigits]
    simp
    split
    · next heq => exact absurd rfl (hrun _ heq.symm)
    · simp [htake, hdrop]

theorem readExponent_absent {rest : List Char} (hstops : Stops rest) :
    ∃ le, readExponent rest = .ok (none, ⟨rest, le⟩) := by
  refine ⟨Nat.le_refl _, ?_⟩
  cases rest with
  | nil => rfl
  | cons c rest =>
    obtain ⟨-, -, hlower, hupper⟩ := hstops c rfl
    simp [readExponent, hlower, hupper]

theorem readExponent_writes {exponent : Option (Bool × List Char)} {text : List Char}
    (h : WritesExponent exponent text) {rest : List Char} (hstops : Stops rest) :
    ∃ le, readExponent (text ++ rest) = .ok (exponent, ⟨rest, le⟩) := by
  cases h with
  | absent => exact readExponent_absent hstops
  | present hmark hsign hdigits =>
    obtain ⟨le, hread⟩ := readSignedDigits_writes hsign hdigits fun c hc => (hstops c hc).1
    refine ⟨by simp only [List.length_append, List.length_cons]; omega, ?_⟩
    simp only [List.cons_append, readExponent, hread]
    rcases hmark with rfl | rfl <;> rfl

/-! ### Numbers -/

/-- An exponent does not go on with digits or with a fraction. -/
theorem head?_exponent {exponent : Option (Bool × List Char)} {text : List Char}
    (h : WritesExponent exponent text) {rest : List Char} (hstops : Stops rest) :
    ∀ c, (text ++ rest).head? = some c → c.isDigit = false ∧ c ≠ '.' := by
  cases h with
  | absent => exact fun c hc => ⟨(hstops c hc).1, (hstops c hc).2.1⟩
  | present hmark =>
    rintro c ⟨⟩
    rcases hmark with rfl | rfl <;> decide

/-- A fraction does not go on with digits. -/
theorem head?_fraction {fraction : Option (List Char)} {text : List Char}
    (h : WritesFraction fraction text) {rest : List Char}
    (hrest : ∀ c, rest.head? = some c → c.isDigit = false) :
    ∀ c, (text ++ rest).head? = some c → c.isDigit = false := by
  cases h with
  | absent => exact hrest
  | present =>
    rintro c ⟨⟩
    decide

/-- Reading the parts one after the other. -/
theorem takes_read {text : List Char} {d : Char} {rest after last : List Char}
    {fraction : Option (List Char)} {exponent : Option (Bool × List Char)}
    (hunsigned : (if text.head? = some '-' then text.drop 1 else text) = d :: rest)
    (hd : d.isDigit = true) (hzero : (d = '0' && rest.head?.any Char.isDigit) = false)
    (hfraction : ∃ le, readFraction (rest.dropWhile Char.isDigit) = .ok (fraction, ⟨after, le⟩))
    (hexponent : ∃ le, readExponent after = .ok (exponent, ⟨last, le⟩)) :
    Takes Numeral.read text
      ⟨text.head? = some '-', d :: rest.takeWhile Char.isDigit, fraction, exponent⟩ last := by
  obtain ⟨le, hfraction⟩ := hfraction
  obtain ⟨le', hexponent⟩ := hexponent
  have hlength : (d :: rest).length ≤ text.length := by
    rw [← hunsigned]
    split <;> simp
  have hdrop := length_dropWhile_le Char.isDigit rest
  refine ⟨by rw [List.length_cons] at hlength; omega, ?_⟩
  unfold Numeral.read
  simp only
  split
  · next heq _ =>
    simp only [hunsigned] at heq
    cases heq
  · next c rest' _ heq _ =>
    simp only [hunsigned] at heq
    obtain ⟨rfl, rfl⟩ := List.cons.inj heq
    simp only [hd, hzero, hfraction, hexponent, bind, Except.bind, pure, Except.pure]
    rfl

/-- A whole part is read from behind its sign. -/
theorem unsigned_eq (negative : Bool) {d : Char} (hd : d.isDigit = true) (rest : List Char) :
    let text := (if negative then ['-'] else []) ++ d :: rest
    decide (text.head? = some '-') = negative ∧
      (if text.head? = some '-' then text.drop 1 else text) = d :: rest := by
  cases negative with
  | true => exact ⟨rfl, rfl⟩
  | false =>
    have hne : (d :: rest).head? ≠ some '-' := by
      rintro heq
      rw [Option.some.inj heq] at hd
      exact absurd hd (by decide)
    exact ⟨decide_eq_false hne, if_neg hne⟩

/-- **Every way of writing a number is read,** where no number goes on. -/
theorem read_writes {n : Numeral} {text : List Char} (h : WritesNumeral n text) {rest : List Char}
    (hstops : Stops rest) : Takes Numeral.read (text ++ rest) n rest := by
  obtain ⟨⟨hne, hdigits⟩, hleading, fractionText, exponentText, hfraction, hexponent, rfl⟩ := h
  obtain ⟨negative, whole, fraction, exponent⟩ := n
  rcases whole with - | ⟨d, ds⟩
  · exact absurd rfl hne
  · have hd := hdigits d List.mem_cons_self
    have hds : ∀ c ∈ ds, c.isDigit = true := fun c hc => hdigits c (List.mem_cons_of_mem d hc)
    have hafter := head?_exponent hexponent hstops
    have hbehind := head?_fraction hfraction fun c hc => (hafter c hc).1
    have htake := takeWhile_append_of_head hds hbehind
    have hdrop := dropWhile_append_of_head hds hbehind
    obtain ⟨hsign, hunsigned⟩ := unsigned_eq negative hd
      (ds ++ (fractionText ++ (exponentText ++ rest)))
    have hzero : (d = '0' && (ds ++ (fractionText ++ (exponentText ++ rest))).head?.any
        Char.isDigit) = false := by
      rcases eq_or_ne d '0' with rfl | hne
      · obtain rfl : ds = [] := (List.cons.inj (hleading rfl)).2
        rcases hhead : (fractionText ++ (exponentText ++ rest)).head? with - | c
        · rw [List.nil_append, hhead]
          rfl
        · rw [List.nil_append, hhead, Option.any_some, hbehind c hhead, Bool.and_false]
      · rw [decide_eq_false hne, Bool.false_and]
    have hread := takes_read hunsigned hd hzero
      (by
        rw [hdrop]
        exact readFraction_writes hfraction (fun c hc => (hafter c hc).1)
          fun hc => (hafter _ hc).2 rfl)
      (readExponent_writes hexponent hstops)
    rw [hsign, htake] at hread
    simpa only [List.append_assoc, List.cons_append] using hread

end Numeral

/-- A number that has a value is read by its value. -/
theorem takeNumber_writes {n : Numeral} {x : Number} {text : List Char} (h : WritesNumeral n text)
    (hx : n.value = .ok x) {rest : List Char} (hstops : Stops rest) :
    Takes takeNumber (text ++ rest) x rest := by
  obtain ⟨shorter, hread⟩ := Numeral.read_writes h hstops
  refine ⟨shorter, ?_⟩
  simp only [takeNumber, hread, hx, bind, Except.bind, pure, Except.pure]

end Json

end ForceDiagram
