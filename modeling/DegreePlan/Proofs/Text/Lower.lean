import DegreePlan.Proofs.Text.Digit

/-!
# Words in lower case

Lower case maps every character for itself, but for the sigma at the end of a word. A word without a sigma therefore
occurs in the lower case of a text exactly if it occurs among the lower cases of its characters.
-/

namespace DegreePlan.Text

variable {c : Char} {cs w : List Char}

/-- The small sigma in place of the one at the end of a word. -/
def innerSigma (c : Char) : Char := if c.toNat == 0x3C2 then Char.ofNat 0x3C3 else c

theorem innerSigma_lowerFrom (before cs : List Char) :
    (lowerFrom before cs).map innerSigma = (cs.flatMap lowerChar).map innerSigma := by
  induction cs generalizing before with
  | nil => rfl
  | cons c cs ih =>
    rw [lowerFrom, List.flatMap_cons, List.map_append, List.map_append, ih]
    congr 1
    split
    · next sigma =>
      have capital : c.toNat = 0x3A3 := by simp only [Bool.and_eq_true, beq_iff_eq] at sigma; exact sigma.1.1
      obtain rfl : c = Char.ofNat 0x3A3 := by rw [← capital, Char.ofNat_toNat]
      decide +kernel
    · rfl

theorem infix_innerSigma (plain : ∀ c ∈ w, c.toNat < 0x3C2 ∨ 0x3C3 < c.toNat) :
    w <:+: cs.map innerSigma ↔ w <:+: cs := by
  have kept {c : Char} (h : (innerSigma c).toNat < 0x3C2 ∨ 0x3C3 < (innerSigma c).toNat) : innerSigma c = c := by
    unfold innerSigma at h ⊢
    split
    · next final => rw [if_pos final] at h; exact absurd h (by decide)
    · rfl
  constructor
  · rintro ⟨u, v, whole⟩
    obtain ⟨l, l', rfl, left, -⟩ := List.map_eq_append_iff.1 whole.symm
    obtain ⟨l₁, l₂, rfl, -, middle⟩ := List.map_eq_append_iff.1 left
    have same : l₂.map innerSigma = l₂ :=
      (List.map_congr_left fun c hc => kept (plain _ (middle ▸ List.mem_map_of_mem hc))).trans l₂.map_id
    exact ⟨l₁, l', by rw [← middle, same]⟩
  · intro found
    have same : w.map innerSigma = w := by
      refine (List.map_congr_left fun c hc => ?_).trans w.map_id
      have other : (c.toNat == 0x3C2) = false := by have := plain c hc; simp; omega
      simp [innerSigma, other]
    exact same ▸ found.map innerSigma

/-- Where words occur, the lower case of a text may be taken character by character. -/
theorem infix_lower (plain : ∀ c ∈ w, c.toNat < 0x3C2 ∨ 0x3C3 < c.toNat) :
    w <:+: (lower (String.ofList cs)).toList ↔ w <:+: cs.flatMap lowerChar := by
  rw [lower, String.toList_ofList, String.toList_ofList, ← infix_innerSigma plain, innerSigma_lowerFrom,
    infix_innerSigma plain]

/-! ## Characters that lower case leaves alone -/

theorem wideBlanks_uncased :
    ([0x85, 0xA0, 0x1680, 0x2028, 0x2029, 0x202F, 0x205F, 0x3000] ++ (List.range 11).map (0x2000 + ·)).all
      (fun n => (mapRuns? lowerRuns n).isNone) = true := by decide +kernel

theorem lowerChar_of_not_isAlpha (ascii : c.toNat < 0x80) (h : c.isAlpha = false) : lowerChar c = [c] := by
  rw [lowerChar, if_pos ascii, Char.toLower_eq_of_not_isUpper (by simp_all [Char.isAlpha])]

theorem lowerChar_of_isBlank (h : isBlank c = true) : lowerChar c = [c] := by
  have letter : c.isAlpha = false := by
    rw [← Bool.not_eq_true]
    exact fun alpha => Bool.false_ne_true ((isBlank_of_isAlpha alpha).symm.trans h)
  by_cases ascii : c.toNat < 0x80
  · exact lowerChar_of_not_isAlpha ascii letter
  · have wide : c.toNat ∈ [0x85, 0xA0, 0x1680, 0x2028, 0x2029, 0x202F, 0x205F, 0x3000] ++
        (List.range 11).map (0x2000 + ·) := by
      simp only [isBlank, Bool.or_eq_true, Bool.and_eq_true, decide_eq_true_eq, beq_iff_eq] at h
      simp only [List.mem_append, List.mem_cons, List.not_mem_nil, or_false, List.mem_map, List.mem_range]
      by_cases spaces : 0x2000 ≤ c.toNat ∧ c.toNat ≤ 0x200A
      · exact .inr ⟨c.toNat - 0x2000, by omega, by omega⟩
      · omega
    have uncased := List.all_eq_true.1 wideBlanks_uncased _ wide
    have other : (c.toNat == 0x130) = false := by
      rw [beq_eq_false_iff_ne]
      intro same
      rw [same] at wide
      revert wide
      decide
    rw [lowerChar, if_neg ascii, other, Option.isNone_iff_eq_none.1 uncased]
    rfl

end DegreePlan.Text
