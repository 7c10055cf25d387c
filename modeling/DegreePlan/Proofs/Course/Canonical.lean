import DegreePlan.Proofs.Course.Code
import DegreePlan.Proofs.Course.Distinct
import DegreePlan.Proofs.Fallible

/-!
# Codes that were read once

Upper case leaves departments and numbers what they are, so the course code of a text is its own course code. A list of
codes is therefore read back as itself, from its items as from its text, and texts that are joined by a comma mean the
courses of the one and then those of the other.
-/

namespace DegreePlan.Course

open DegreePlan.Text

variable {department number cs : List Char} {codes : List String} {s code : String}

/-! ## One code -/

theorem isLetter_toUpper (c : Char) : isLetter c.toUpper = isLetter c := by
  rw [isLetter_eq_isAlpha, isLetter_eq_isAlpha, Char.isAlpha_toUpper_eq_isAlpha]

theorem isDigit_toUpper (c : Char) : isDigit c.toUpper = isDigit c := by
  cases hc : c.isAlpha with
  | true => rw [isDigit_of_isAlpha hc, isDigit_of_isAlpha (by rwa [Char.isAlpha_toUpper_eq_isAlpha])]
  | false => rw [Char.toUpper_eq_of_not_isLower (by simp_all [Char.isAlpha])]

theorem isNumber_upper (cs : List Char) : isNumber (cs.map Char.toUpper) = isNumber cs := by
  rcases cs with _ | ⟨a, _ | ⟨b, _ | ⟨c, _ | ⟨d, _ | ⟨e, _ | ⟨f, rest⟩⟩⟩⟩⟩⟩ <;>
    simp [isNumber, isDigit_toUpper, isLetter_toUpper]

theorem Named.upper (h : Named department number) : Named (department.map Char.toUpper) (number.map Char.toUpper) where
  letters c hc := by
    obtain ⟨d, hd, rfl⟩ := List.mem_map.1 hc
    rw [Char.isAlpha_toUpper_eq_isAlpha]
    exact h.letters d hd
  size := by rw [List.length_map]; exact h.size
  number := by rw [isNumber_upper]; exact h.number

theorem codeOfChars?_again {code : List Char} (h : codeOfChars? cs = some code) : codeOfChars? code = some code := by
  obtain ⟨department, gap, number, named, -, -, rfl⟩ := codeOfChars?_eq_some h
  have twice (cs : List Char) : (cs.map Char.toUpper).map Char.toUpper = cs.map Char.toUpper := by
    simp [Function.comp_def, Char.toUpper_toUpper_eq_toUpper]
  rw [named.upper.codeOfChars?, twice, twice]

theorem codeOfText?_again (h : codeOfText? s = some code) : codeOfText? code = some code := by
  obtain ⟨cs, found, rfl⟩ := Option.map_eq_some_iff.1 h
  rw [codeOfText?, String.toList_ofList, trim_of_trimmed (codeOfChars?_trimmed found).1, codeOfChars?_again found]
  rfl

theorem code?_str (s : String) : code? (.str s) = codeOfText? s := by
  rw [code?, Json.isBlank]
  split
  · next empty =>
    obtain rfl : s = "" := by simpa using empty
    rfl
  · rfl

/-- The code of a value is the code of itself. -/
theorem code?_again {raw : Json} (h : code? raw = some code) : code? (.str code) = some code := by
  unfold code? at h
  split at h
  · cases h
  · rw [code?_str, codeOfText?_again h]

/-! ## Lists of codes -/

/-- No mark of a list stands in a code. -/
theorem isListMark_of_code {code : List Char} (h : codeOfChars? cs = some code) :
    ∀ c ∈ code, isListMark c = false := by
  obtain ⟨department, gap, number, named, -, -, rfl⟩ := codeOfChars?_eq_some h
  have mark {c : Char} (hc : isDigit c = true ∨ isLetter c = true) : isListMark c = false := by
    rw [← Bool.not_eq_true]
    simp only [isListMark, Bool.or_eq_true, beq_iff_eq]
    rintro ((rfl | rfl) | rfl) <;> exact absurd hc (by decide)
  intro c hc
  rcases List.mem_append.1 hc with hd | hn
  · exact mark (.inr (by rw [isLetter_eq_isAlpha, named.upper.letters c hd]))
  · rcases List.mem_cons.1 hn with rfl | hn
    · decide
    · exact mark ((isNumber_chars named.upper.number).2 c hn)

/-- A code is the list of itself. -/
theorem codesOfText_code (h : codeOfText? code = some code) : codesOfText code = [code] := by
  obtain ⟨cs, found, rfl⟩ := Option.map_eq_some_iff.1 h
  have marks : ∀ c ∈ cs, isListMark c = false := isListMark_of_code found
  rw [codesOfText, String.toList_ofList, cutAt_of_none marks]
  simp only [List.filterMap_cons, h, List.filterMap_nil]
  rfl

theorem codesOfText_read (s : String) : ∀ code ∈ codesOfText s, codeOfText? code = some code := by
  intro code hc
  obtain ⟨piece, -, found⟩ := List.mem_filterMap.1 (mem_distinct.1 hc)
  exact codeOfText?_again found

theorem distinct_codesOfText (s : String) : distinct (codesOfText s) = codesOfText s :=
  distinct_of_nodup (nodup_distinct _)

/-- Behind a comma the codes of another text follow. -/
theorem codesOfText_comma (s t : String) : codesOfText (s ++ "," ++ t) = distinct (codesOfText s ++ codesOfText t) := by
  have comma : (s ++ "," ++ t).toList = s.toList ++ ',' :: t.toList := by simp
  rw [codesOfText, comma, cutAt_at rfl, List.filterMap_append, codesOfText, codesOfText, distinct_append_distinct,
    distinct_distinct_append]

/-- The codes of a text that codes were joined to. -/
theorem codesOfText_joined (read : ∀ code ∈ codes, codeOfText? code = some code) :
    codesOfText (",".intercalate codes) = distinct codes := by
  induction codes with
  | nil => rfl
  | cons code codes ih =>
    obtain ⟨hc, hcs⟩ := List.forall_mem_cons.1 read
    cases codes with
    | nil => exact codesOfText_code hc
    | cons next codes =>
      rw [String.intercalate_cons_cons, codesOfText_comma, codesOfText_code hc, ih hcs, distinct_append_distinct]
      rfl

/-- The codes of a list of codes. -/
theorem codeList_read (read : ∀ code ∈ codes, codeOfText? code = some code) :
    codeList (.arr (codes.map .str)) = .ok (distinct codes) := by
  have kept : (codes.map Json.str).filterMap code? = codes := by
    rw [List.filterMap_map]
    exact (List.filterMap_congr fun code hc => (code?_str code).trans (read code hc)).trans List.filterMap_some
  simp only [codeList, Json.parts, ok_bind, kept, pure_eq_ok]

/-- A value has no course code, or one that is its own course code. Two texts that are joined by a comma have the codes
of the one and then those of the other, each once where it comes first, and so has the list of these codes. In
particular the codes of a text are read back unchanged from their list and from their text. -/
theorem codes_canonical :
    (∀ raw, code? raw = none ∨ ∃ code, code? raw = some code ∧ code? (.str code) = some code) ∧
    ∀ s t, ∃ as bs, codeList (.str s) = .ok as ∧ codeList (.str t) = .ok bs ∧
      codeList (.str (s ++ "," ++ t)) = codeList (.arr ((as ++ bs).map .str)) ∧
      codeList (.str (s ++ "," ++ t)) = .ok (as ++ bs).eraseDups ∧
      codeList (.arr (as.map .str)) = .ok as ∧ codeList (.str (",".intercalate as)) = .ok as := by
  refine ⟨fun raw => ?single,
    fun s t => ⟨codesOfText s, codesOfText t, rfl, rfl, ?list, ?joined, ?again, ?split⟩⟩
  case single =>
    cases found : code? raw with
    | none => exact .inl rfl
    | some code => exact .inr ⟨code, rfl, code?_again found⟩
  case joined => rw [← distinct_eq_eraseDups, ← codesOfText_comma]; rfl
  case list =>
    have read : ∀ code ∈ codesOfText s ++ codesOfText t, codeOfText? code = some code := fun code hc =>
      (List.mem_append.1 hc).elim (codesOfText_read s code) (codesOfText_read t code)
    rw [codeList_read read, ← codesOfText_comma]
    rfl
  case again => rw [codeList_read (codesOfText_read s), distinct_codesOfText]
  case split => rw [codeList, codesOfText_joined (codesOfText_read s), distinct_codesOfText]

end DegreePlan.Course
