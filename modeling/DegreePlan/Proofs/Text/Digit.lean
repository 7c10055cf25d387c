import DegreePlan.Number.Literal
import DegreePlan.Proofs.Text.Scan

/-!
# Digits of any script

Digits have no case and are no blanks. A text that is made of digits alone is therefore read as the integer they stand
for, unless there are too many of them.
-/

namespace DegreePlan.Text

variable {c : Char} {cs : List Char}

/-- A digit is one of ASCII or one of the ten in the row of some script. -/
theorem isDigit_cases (h : isDigit c = true) :
    (0x30 ≤ c.toNat ∧ c.toNat ≤ 0x39) ∨ ∃ z ∈ digitZeros, z ≤ c.toNat ∧ c.toNat ≤ z + 9 := by
  unfold isDigit digitValue? at h
  dsimp only at h
  split at h
  · split at h
    · rename_i range
      exact .inl (by simpa using range)
    · cases h
  · rw [Option.isSome_map, List.find?_isSome] at h
    obtain ⟨z, hz, range⟩ := h
    exact .inr ⟨z, hz, by simpa using range⟩

theorem digitValue?_le {v : Nat} (h : digitValue? c = some v) : v ≤ 9 := by
  unfold digitValue? at h
  dsimp only at h
  split at h
  · split at h
    · rename_i range
      simp only [Bool.and_eq_true, decide_eq_true_eq] at range
      cases h
      omega
    · cases h
  · obtain ⟨z, found, rfl⟩ := Option.map_eq_some_iff.1 h
    have range := List.find?_some found
    simp only [Bool.and_eq_true, decide_eq_true_eq] at range
    omega

/-! ## Where the rows of digits stand -/

theorem digitZeros_uncased :
    (lowerRuns.all fun r => digitZeros.all fun z => r.last.blt z || (z + 9).blt r.first) = true := by decide +kernel

theorem digitZeros_between_blanks :
    (digitZeros.all fun z => (Nat.blt 0x3A3 z && (z + 9).blt 0x1680) || (Nat.blt 0x1680 z && (z + 9).blt 0x2000) ||
      Nat.blt 0x3000 z) = true := by decide +kernel

theorem of_mem_digitZeros {z : Nat} (hz : z ∈ digitZeros) :
    (0x3A3 < z ∧ z + 9 < 0x1680) ∨ (0x1680 < z ∧ z + 9 < 0x2000) ∨ 0x3000 < z := by
  have range := List.all_eq_true.1 digitZeros_between_blanks z hz
  simp only [Bool.or_eq_true, Bool.and_eq_true, Nat.blt_eq] at range
  omega

/-- The digits of every script lie between the blanks. -/
theorem digit_bounds (h : isDigit c = true) : (0x30 ≤ c.toNat ∧ c.toNat ≤ 0x39) ∨
    (0x3A3 < c.toNat ∧ c.toNat < 0x1680) ∨ (0x1680 < c.toNat ∧ c.toNat < 0x2000) ∨ 0x3000 < c.toNat := by
  rcases isDigit_cases h with range | ⟨z, hz, range⟩
  · exact .inl range
  · have := of_mem_digitZeros hz
    omega

theorem isBlank_of_isDigit (h : isDigit c = true) : isBlank c = false := by
  have := digit_bounds h
  rw [← Bool.not_eq_true]
  simp only [isBlank, Bool.or_eq_true, Bool.and_eq_true, decide_eq_true_eq, beq_iff_eq]
  omega

theorem lowerChar_of_isDigit (h : isDigit c = true) : lowerChar c = [c] ∧ c.toNat ≠ 0x3A3 := by
  rcases isDigit_cases h with range | ⟨z, hz, range⟩
  · refine ⟨?_, by omega⟩
    have same : c.toLower = c := by
      refine Char.toLower_eq_of_not_isUpper fun upper => ?_
      have letter := isAlpha_iff.1 (show c.isAlpha = true by simp [Char.isAlpha, upper])
      omega
    simp only [lowerChar]
    rw [if_pos (by omega), same]
  · have beyond := of_mem_digitZeros hz
    refine ⟨?_, by omega⟩
    have uncased : mapRuns? lowerRuns c.toNat = none := by
      rw [mapRuns?, Option.map_eq_none_iff, List.find?_eq_none]
      intro r hr covers
      have apart := List.all_eq_true.1 (List.all_eq_true.1 digitZeros_uncased r hr) z hz
      simp only [CaseRun.covers, Bool.or_eq_true, Bool.and_eq_true, Nat.blt_eq, decide_eq_true_eq] at apart covers
      omega
    simp only [lowerChar]
    rw [if_neg (by omega), if_neg (by simp; omega), uncased]
    rfl

/-- Digits have no case. -/
theorem lower_digits (h : ∀ c ∈ cs, isDigit c = true) : lower (String.ofList cs) = String.ofList cs := by
  have from_here (before : List Char) : lowerFrom before cs = cs := by
    induction cs generalizing before with
    | nil => rfl
    | cons c cs ih =>
      obtain ⟨hc, hcs⟩ := List.forall_mem_cons.1 h
      obtain ⟨same, other⟩ := lowerChar_of_isDigit hc
      have sigma : (c.toNat == 0x3A3) = false := by simpa using other
      simp only [lowerFrom, sigma, Bool.false_and, Bool.false_eq_true, if_false, same, ih hcs]
      rfl
  rw [lower, String.toList_ofList, from_here]

end DegreePlan.Text

namespace DegreePlan.Number

open DegreePlan.Text

variable {c : Char} {cs : List Char}

theorem isPlainDigit_iff : isPlainDigit c = true ↔ 0x30 ≤ c.toNat ∧ c.toNat ≤ 0x39 := by
  simp only [isPlainDigit, Bool.and_eq_true, decide_eq_true_eq, Char.le_def, UInt32.le_iff_toNat_le]
  exact Iff.rfl

theorem isSpacing_of_isPlainDigit (h : isPlainDigit c = true) : isSpacing c = false := by
  rw [isPlainDigit_iff] at h
  rw [← Bool.not_eq_true]
  simp only [isSpacing, Bool.or_eq_true, Bool.and_eq_true, decide_eq_true_eq, beq_iff_eq]
  omega

theorem splitSign_plain (h : ∀ c ∈ cs, isPlainDigit c = true) : splitSign cs = (false, cs) := by
  unfold splitSign
  split
  · exact absurd (h '-' (List.mem_cons_self ..)) (by decide)
  · exact absurd (h '+' (List.mem_cons_self ..)) (by decide)
  · rfl

theorem isPlainDigit_ofNat {v : Nat} (h : v ≤ 9) : isPlainDigit (Char.ofNat (0x30 + v)) = true := by
  have : ∀ v ≤ 9, isPlainDigit (Char.ofNat (0x30 + v)) = true := by decide
  exact this v h

/-- Digits become as many digits of ASCII. -/
theorem plain_digits (h : ∀ c ∈ cs, isDigit c = true) :
    (∀ c ∈ plain cs, isPlainDigit c = true) ∧ (plain cs).length = cs.length := by
  unfold plain
  split
  · rename_i ascii
    refine ⟨fun c hc => ?_, rfl⟩
    have small : c.toNat < 0x80 := by simpa using List.all_eq_true.1 ascii c hc
    have bounds := digit_bounds (h c hc)
    exact isPlainDigit_iff.2 (by omega)
  · refine ⟨?_, List.length_map ..⟩
    rw [List.forall_mem_map]
    intro c hc
    rw [if_neg (by simp [isBlank_of_isDigit (h c hc)])]
    obtain ⟨v, hv⟩ := Option.isSome_iff_exists.1 (h c hc)
    rw [hv]
    exact isPlainDigit_ofNat (digitValue?_le hv)

/-- They stand for the same number. -/
theorem digitsToNat_plain (h : ∀ c ∈ cs, isDigit c = true) : digitsToNat (plain cs) = digitsToNat cs := by
  unfold plain
  split
  · rfl
  · rw [digitsToNat, List.foldl_map]
    refine List.foldl_ext _ _ _ fun n c hc => ?_
    obtain ⟨v, hv⟩ := Option.isSome_iff_exists.1 (h c hc)
    have same : ∀ v ≤ 9, digitValue? (Char.ofNat (0x30 + v)) = some v := by decide
    rw [if_neg (by simp [isBlank_of_isDigit (h c hc)]), hv]
    simp only [same v (digitValue?_le hv)]

theorem dropUnderscores?_plain (after : Bool) (h : ∀ c ∈ cs, isPlainDigit c = true) :
    dropUnderscores? after cs = some cs := by
  induction cs generalizing after with
  | nil => rfl
  | cons c cs ih =>
    obtain ⟨hc, hcs⟩ := List.forall_mem_cons.1 h
    have other : c ≠ '_' := by rintro rfl; cases hc
    rw [dropUnderscores?, ih _ hcs]
    · rfl
    · exact fun _ _ same _ => other same
    · exact fun same _ => other same

/-- A text of digits is read as the number that they stand for, unless it is too long. -/
theorem readInteger_digits (some : cs ≠ []) (h : ∀ c ∈ cs, isDigit c = true) :
    readInteger (lower (String.ofList cs)) =
      if maxIntegerDigits < cs.length then .tooLong cs.length else .value (digitsToNat cs) := by
  obtain ⟨digits, length⟩ := plain_digits h
  have spacing : ∀ c ∈ plain cs, isSpacing c = false := fun c hc => isSpacing_of_isPlainDigit (digits c hc)
  have bare : bare (lower (String.ofList cs)) = plain cs := by
    rw [Number.bare, lower_digits h, String.toList_ofList,
      dropWhile_of_head fun c hc => spacing c (List.mem_of_head? hc), dropEndWhile_of_last fun c hc =>
        spacing c (List.mem_of_getLast? hc)]
  have filled : (plain cs).isEmpty = false := by
    rw [← Bool.not_eq_true, List.isEmpty_iff_length_eq_zero, length]
    exact fun zero => some (List.length_eq_zero_iff.1 zero)
  have all : (plain cs).all isPlainDigit = true := List.all_eq_true.2 digits
  simp only [readInteger, bare, splitSign_plain digits, dropUnderscores?_plain false digits, filled, all, length,
    digitsToNat_plain h]
  simp

end DegreePlan.Number
