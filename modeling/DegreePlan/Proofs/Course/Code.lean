import DegreePlan.Course.Code
import DegreePlan.Proofs.Text.Digit

/-!
# Course codes

A text that is a department and a number has the course code that these are in upper case. What is taken for a course
code is a department and a number, in whatever script its digits are, so the code is trimmed.
-/

namespace DegreePlan.Course

open DegreePlan.Text

theorem isLetter_eq_isAlpha (c : Char) : isLetter c = c.isAlpha := by
  rw [isLetter, Char.isAlpha, Bool.or_comm]
  simp only [Char.isUpper, Char.isLower, Char.le_def, ge_iff_le, Bool.decide_and]

theorem isDigit_of_isAlpha {c : Char} (h : c.isAlpha = true) : isDigit c = false := by
  rw [← Bool.not_eq_true]
  intro digit
  have := digit_bounds digit
  have := isAlpha_iff.1 h
  omega

theorem isAlpha_of_isDigit {c : Char} (h : isDigit c = true) : c.isAlpha = false := by
  rw [← Bool.not_eq_true]
  exact fun alpha => Bool.false_ne_true ((isDigit_of_isAlpha alpha).symm.trans h)

theorem isDigit_toLower (c : Char) : isDigit c.toLower = isDigit c := by
  cases hc : c.isAlpha with
  | true => rw [isDigit_of_isAlpha hc, isDigit_of_isAlpha (by simpa using hc)]
  | false => rw [Char.toLower_eq_of_not_isUpper (by simp_all [Char.isAlpha])]

theorem ascii_digit_bounds {c : Char} (h : c.isDigit = true) : 0x30 ≤ c.toNat ∧ c.toNat ≤ 0x39 := by
  simp only [Char.isDigit, Bool.and_eq_true, decide_eq_true_eq, UInt32.le_iff_toNat_le, ge_iff_le] at h
  exact h

theorem isDigit_of_ascii {c : Char} (h : c.isDigit = true) : isDigit c = true := by
  have bounds := ascii_digit_bounds h
  have ascii : c.toNat < 0x80 := by omega
  simp [isDigit, digitValue?, ascii, bounds]

/-- A digit does not count as a letter. -/
theorem isAlpha_foldLetter_of_isDigit {c : Char} (h : isDigit c = true) : (foldLetter c).isAlpha = false := by
  rw [← Bool.not_eq_true]
  intro alpha
  have bounds := digit_bounds h
  rcases of_isAlpha_foldLetter alpha with hc | hc
  · have := isAlpha_iff.1 hc
    omega
  · omega

/-- No character of a course number is blank, and none is left blank by upper case. -/
theorem isBlank_toUpper {c : Char} (h : isDigit c = true ∨ isLetter c = true) : isBlank c.toUpper = false := by
  rw [isLetter_eq_isAlpha] at h
  cases hl : c.isAlpha with
  | true => exact isBlank_of_isAlpha (by simpa using hl)
  | false =>
    rw [Char.toUpper_eq_of_not_isLower (by simp_all [Char.isAlpha])]
    exact isBlank_of_isDigit (h.resolve_right (by simp [hl]))

theorem isNumber_chars {cs : List Char} (h : isNumber cs = true) :
    cs ≠ [] ∧ ∀ c ∈ cs, isDigit c = true ∨ isLetter c = true := by
  unfold isNumber at h
  split at h
  · simp_all
  · simp_all
  · cases h

/-- Four digits and perhaps a letter are a course number. -/
theorem isNumber_of {digits letter : List Char} (four : digits.length = 4) (hd : ∀ c ∈ digits, isDigit c = true)
    (one : letter.length ≤ 1) (hl : ∀ c ∈ letter, c.isAlpha = true) : isNumber (digits ++ letter) = true := by
  rcases digits with _ | ⟨a, _ | ⟨b, _ | ⟨c, _ | ⟨d, _ | ⟨e, ds⟩⟩⟩⟩⟩ <;> simp at four
  rcases letter with _ | ⟨l, _ | ⟨l', ls⟩⟩ <;> simp at one
  · simp_all [isNumber]
  · simp_all [isNumber, isLetter_eq_isAlpha]

/-- A course number is digits and one more digit or a letter. -/
theorem isNumber_split {cs : List Char} (h : isNumber cs = true) :
    ∃ digits last, cs = digits ++ [last] ∧ digits ≠ [] ∧ (∀ c ∈ digits, isDigit c = true) ∧
      (isDigit last = true ∨ last.isAlpha = true) := by
  unfold isNumber at h
  split at h
  · next a b c d => exact ⟨[a, b, c], d, rfl, by simp, by simp_all, by simp_all⟩
  · next a b c d e => exact ⟨[a, b, c, d], e, rfl, by simp, by simp_all, .inr (by simp_all [isLetter_eq_isAlpha])⟩
  · cases h

/-- A department and a number. -/
structure Named (department number : List Char) : Prop where
  letters : ∀ c ∈ department, c.isAlpha = true
  size : 2 ≤ department.length ∧ department.length ≤ 5
  number : isNumber number = true

namespace Named

variable {department number : List Char}

theorem number_chars (h : Named department number) : ∀ c ∈ number, isBlank c = false := by
  intro c hc
  rcases (isNumber_chars h.number).2 c hc with hd | hl
  · exact isBlank_of_isDigit hd
  · exact isBlank_of_isAlpha (by rwa [← isLetter_eq_isAlpha])

theorem department_letter (h : Named department number) : ∃ l rest, department = l :: rest ∧ l.isAlpha = true := by
  obtain ⟨l, rest, rfl⟩ := List.exists_cons_of_length_pos (show 0 < department.length by have := h.size; omega)
  exact ⟨l, rest, rfl, h.letters l (by simp)⟩

theorem number_digit (h : Named department number) : ∃ d rest, number = d :: rest ∧ isDigit d = true := by
  obtain ⟨digits, last, rfl, shown, hd, -⟩ := isNumber_split h.number
  obtain ⟨d, digits, rfl⟩ := List.exists_cons_of_ne_nil shown
  exact ⟨d, _, rfl, hd d (by simp)⟩

/-- The department stands in front. -/
theorem front (h : Named department number) (rest : List Char) :
    ∀ c ∈ (department ++ rest).head?, isBlank c = false := by
  obtain ⟨l, ls, rfl, alpha⟩ := h.department_letter
  simpa using isBlank_of_isAlpha alpha

theorem no_bracket (h : Named department number) : '(' ∉ department ++ ' ' :: number := by
  simp only [List.mem_append, List.mem_cons, not_or]
  refine ⟨fun hd => absurd (h.letters _ hd) (by decide), by decide, fun hn => ?_⟩
  exact absurd ((isNumber_chars h.number).2 _ hn) (by decide)

theorem dropSeparator (h : Named department number) : dropSeparator (' ' :: number) = number := by
  obtain ⟨hne, chars⟩ := isNumber_chars h.number
  obtain ⟨c, rest, rfl⟩ := List.exists_cons_of_ne_nil hne
  have hc : isBlank c = false := h.number_chars c (by simp)
  have mark : (c == '-' || c == '_') = false := by
    have first := chars c (by simp)
    simp only [Bool.or_eq_false_iff, beq_eq_false_iff_ne]
    constructor <;> (rintro rfl; exact absurd first (by decide))
  simp [Course.dropSeparator, isBlank_space, hc, mark]

theorem codeOfChars? (h : Named department number) :
    codeOfChars? (department ++ ' ' :: number) =
    some (department.map Char.toUpper ++ ' ' :: number.map Char.toUpper) := by
  have letters : ∀ c ∈ department, isLetter c = true := fun c hc => by rw [isLetter_eq_isAlpha, h.letters c hc]
  have space : isLetter ' ' = false := by decide
  have off : splitDepartment? (department ++ ' ' :: number) = some (department, ' ' :: number) := by
    simp [splitDepartment?, List.takeWhile_append_of_pos letters, List.dropWhile_append_of_pos letters, space, h.size]
  simp only [Course.codeOfChars?, off, h.dropSeparator, h.number, if_true]

end Named

/-- What may stand between a department and a number: blanks around at most one hyphen or underscore. -/
inductive Gap : List Char → Prop where
  | blanks {gap : List Char} (blank : Blank gap) : Gap gap
  | mark {gap gap' : List Char} {c : Char} (blank : Blank gap) (mark : c = '-' ∨ c = '_') (blank' : Blank gap') :
      Gap (gap ++ c :: gap')

theorem gap_dropSeparator (cs : List Char) : ∃ gap, Gap gap ∧ cs = gap ++ dropSeparator cs := by
  have split := List.takeWhile_append_dropWhile (p := isBlank) (l := cs)
  unfold dropSeparator
  split
  · next none => exact ⟨_, .blanks (blank_takeWhile cs), by rw [← none, split]⟩
  · next c behind found =>
    split
    · next mark =>
      refine ⟨_, .mark (c := c) (blank_takeWhile cs) (by simpa using mark) (blank_takeWhile behind), ?_⟩
      rw [List.append_assoc, List.cons_append, List.takeWhile_append_dropWhile, ← found, split]
    · exact ⟨_, .blanks (blank_takeWhile cs), by rw [← found, split]⟩

/-- A text that is taken for a code is a department, a gap and a number. -/
theorem codeOfChars?_eq_some {cs code : List Char} (h : codeOfChars? cs = some code) :
    ∃ department gap number, Named department number ∧ Gap gap ∧ cs = department ++ (gap ++ number) ∧
      code = department.map Char.toUpper ++ ' ' :: number.map Char.toUpper := by
  simp only [codeOfChars?, splitDepartment?] at h
  split at h
  · cases h
  · next department rest hd =>
    split at hd
    · next size =>
      obtain ⟨rfl, rfl⟩ := Prod.mk.inj (Option.some.inj hd)
      split at h
      · next number =>
        have letters : ∀ c ∈ cs.takeWhile isLetter, c.isAlpha = true := fun c hc => by
          rw [← isLetter_eq_isAlpha]
          exact List.mem_takeWhile_imp hc
        obtain ⟨gap, separates, rest⟩ := gap_dropSeparator (cs.dropWhile isLetter)
        exact ⟨_, gap, _, ⟨letters, by simpa using size, number⟩, separates,
          by rw [← rest, List.takeWhile_append_dropWhile], (Option.some.inj h).symm⟩
      · cases h
    · cases hd

/-- What is taken for a course code is trimmed and not empty. -/
theorem codeOfChars?_trimmed {cs code : List Char} (h : codeOfChars? cs = some code) :
    Trimmed code ∧ code ≠ [] := by
  obtain ⟨department, gap, number, named, -, -, rfl⟩ := codeOfChars?_eq_some h
  obtain ⟨shown, chars⟩ := isNumber_chars named.number
  refine ⟨⟨fun c hc => ?front, fun c hc => ?back⟩, by simp⟩
  case front =>
    obtain ⟨l, ls, rfl, alpha⟩ := named.department_letter
    obtain rfl : l.toUpper = c := by simpa using hc
    exact isBlank_toUpper (.inr (by rw [isLetter_eq_isAlpha, alpha]))
  case back =>
    obtain ⟨d, hd, rfl⟩ : ∃ d ∈ number, d.toUpper = c := by
      rw [List.getLast?_append_cons, List.getLast?_cons_of_ne_nil (by simpa using shown)] at hc
      exact List.mem_map.1 (List.mem_of_getLast? hc)
    exact isBlank_toUpper (chars d hd)

end DegreePlan.Course
