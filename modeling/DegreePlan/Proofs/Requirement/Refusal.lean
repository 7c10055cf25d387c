import DegreePlan.Proofs.Requirement.Wire
import DegreePlan.Proofs.Text.Digit

/-!
# What stops the reading of prose

Prose that is no requirement ends with a fault of trees, with one exception: a choice whose count is written with more
digits than an integer is read from.
-/

namespace DegreePlan.Requirement

open DegreePlan.Text

namespace Prose

/-- A count of more digits than are read. -/
def Overlong (count : List Char) : Prop :=
  (∀ c ∈ count, isDigit c = true) ∧ Number.maxIntegerDigits < count.length

/-- Every count has a value unless it is overlong. -/
theorem countValue_cases (count : List Char) :
    (Overlong count ∧ countValue count = .error (.value (.integerTooLong count.length))) ∨
      ¬ Overlong count ∧ ∃ value, countValue count = .ok value := by
  unfold countValue
  dsimp only
  split
  · rename_i digits
    simp only [Bool.and_eq_true, Bool.not_eq_true', List.isEmpty_eq_false_iff, List.all_eq_true] at digits
    have read := Number.readInteger_digits digits.1 digits.2
    split at read
    · rename_i long
      exact .inl ⟨⟨digits.2, long⟩, by rw [read]⟩
    · rename_i short
      exact .inr ⟨fun long => short long.2, some (digitsToNat count), by rw [read]; rfl⟩
  · rename_i other
    refine .inr ⟨fun long => other ?_, _, rfl⟩
    have filled : count ≠ [] := by rintro rfl; exact absurd long.2 (by decide)
    simpa [filled] using long.1

theorem countValue_eq_error {count : List Char} {f : Fault} :
    countValue count = .error f ↔ Overlong count ∧ f = .value (.integerTooLong count.length) := by
  rcases countValue_cases count with ⟨long, stuck⟩ | ⟨short, value, read⟩
  · rw [stuck]
    exact ⟨fun h => by cases h; exact ⟨long, rfl⟩, fun h => by rw [h.2]⟩
  · rw [read]
    exact ⟨nofun, fun h => absurd h.1 short⟩

/-- A text that asks for a choice with an overlong count, and that is neither refused nor taken for no requirement
before the choice is read. -/
def Uncountable (text : String) : Prop :=
  let cs := trim text.toList
  let lowered := lower (String.ofList cs)
  nothing.contains lowered = false ∧
    (unsupportedWords.any fun word => hasInfix word.toList lowered.toList) = false ∧
    ∃ choice, choice? cs = some choice ∧ Overlong choice.count

end Prose

open Prose

theorem ofProse_uncountable {text : String} (h : Uncountable text) :
    ∃ digits, ofProse text = .error (.value (.integerTooLong digits)) := by
  obtain ⟨some, supported, choice, hc, long⟩ := h
  refine ⟨choice.count.length, ?_⟩
  have stuck := countValue_eq_error.2 ⟨long, rfl⟩
  simp only [ofProse, some, supported, hc, readChoice, stuck, error_bind, Bool.false_eq_true, if_false]

/-- Reading prose ends with a fault of another kind exactly at the choices with an overlong count. -/
theorem ofProse_escapes {text : String} :
    (∃ f, ofProse text = .error f ∧ f.isTreeFault = false) ↔ Uncountable text := by
  constructor
  · rintro ⟨f, hf, other⟩
    obtain faulty | ⟨choice, hc, stuck⟩ := (gives_ofProse text).of_error hf
    · rw [TreeFaulty, other] at faulty
      cases faulty
    refine ⟨?some, ?supported, choice, hc, (countValue_eq_error.1 stuck).1⟩
    case some =>
      rw [← Bool.not_eq_true]
      intro empty
      simp only [ofProse, empty, if_true] at hf
      cases hf
    case supported =>
      rw [← Bool.not_eq_true]
      intro refused
      simp only [ofProse, refused, if_true] at hf
      split at hf <;> cases hf
      cases other
  · intro long
    obtain ⟨digits, stuck⟩ := ofProse_uncountable long
    exact ⟨_, stuck, rfl⟩

/-- What reading prose comes to. -/
theorem ofProse_cases (text : String) :
    (Uncountable text ∧ ∃ f, ofProse text = .error f ∧ f.isTreeFault = false) ∨
      ¬ Uncountable text ∧
      ((∃ tree, ofProse text = .ok tree) ∨ ∃ f, ofProse text = .error f ∧ f.isTreeFault = true) := by
  rw [← ofProse_escapes]
  cases ofProse text with
  | ok tree => exact .inr ⟨by simp, .inl ⟨tree, rfl⟩⟩
  | error f =>
    cases faulty : f.isTreeFault with
    | true => exact .inr ⟨by simpa using faulty, .inr ⟨f, rfl, faulty⟩⟩
    | false => exact .inl ⟨⟨f, rfl, faulty⟩, f, rfl, faulty⟩

end DegreePlan.Requirement
