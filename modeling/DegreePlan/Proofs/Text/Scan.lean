import Mathlib
import DegreePlan.Proofs.Text.Trim
import DegreePlan.Text.Case

/-!
# Scanning texts

What the functions that cut and scan texts do with a text that is put together from pieces: where it is
cut, which words it begins with and which words occur in it. The case of ASCII letters does not count.
-/

namespace DegreePlan.Text

variable {p : Char → Bool} {a b cs ds word : List Char} {c d x : Char}

/-! ## Case -/

/-- The texts differ at most in the case of ASCII letters. -/
def Alike (cs ds : List Char) : Prop := cs.map Char.toLower = ds.map Char.toLower

theorem Alike.split (h : Alike cs (a ++ b)) : ∃ a' b', cs = a' ++ b' ∧ Alike a' a ∧ Alike b' b := by
  rw [Alike, List.map_append] at h
  obtain ⟨a', b', rfl, ha, hb⟩ := List.map_eq_append_iff.1 h
  exact ⟨a', b', rfl, ha, hb⟩

theorem Alike.cut (h : Alike cs (d :: ds)) : ∃ c cs', cs = c :: cs' ∧ c.toLower = d.toLower ∧ Alike cs' ds := by
  obtain ⟨c, cs', rfl, hc, hcs⟩ := List.map_eq_cons_iff.1 h
  exact ⟨c, cs', rfl, hc, hcs⟩

theorem Alike.nil (h : Alike cs []) : cs = [] := List.map_eq_nil_iff.1 h

theorem Alike.length (h : Alike cs ds) : cs.length = ds.length := by simpa using congrArg List.length h

theorem Alike.upper (h : Alike cs ds) : cs.map Char.toUpper = ds.map Char.toUpper := by
  have := congrArg (List.map Char.toUpper) h
  simpa [Function.comp_def] using this

/-- A property that lower case keeps carries over. -/
theorem Alike.forall {P : Char → Prop} (hP : ∀ c, P c.toLower ↔ P c) (h : Alike cs ds) :
    (∀ c ∈ cs, P c) ↔ ∀ d ∈ ds, P d := by
  have lower (l : List Char) : (∀ c ∈ l, P c) ↔ ∀ c ∈ l.map Char.toLower, P c := by simp [hP]
  rw [lower cs, h, ← lower ds]

/-- What is no letter in lower case is no letter. -/
theorem eq_of_toLower (h : c.toLower = d.toLower) (hd : d.isAlpha = false) : c = d := by
  have fixed {e : Char} (he : e.isAlpha = false) : e.toLower = e :=
    Char.toLower_eq_of_not_isUpper (by simp_all [Char.isAlpha])
  have hc : c.isAlpha = false := by rw [← Char.isAlpha_toLower_eq_isAlpha, h, Char.isAlpha_toLower_eq_isAlpha, hd]
  rwa [fixed hc, fixed hd] at h

/-- A text without letters has one case only. -/
theorem Alike.eq (h : Alike cs ds) (other : ∀ d ∈ ds, d.isAlpha = false) : cs = ds := by
  induction ds generalizing cs with
  | nil => exact h.nil
  | cons d ds ih =>
    obtain ⟨hd, hds⟩ := List.forall_mem_cons.1 other
    obtain ⟨c, cs, rfl, hc, h⟩ := h.cut
    rw [eq_of_toLower hc hd, ih h hds]

/-- A character is the small or the capital letter that its lower case tells. -/
theorem eq_or_of_toLower (h : c.toLower = d) : c = d ∨ c = d.toUpper := by
  cases hc : c.isUpper with
  | true =>
    refine .inr ?_
    rw [← h, Char.toUpper_toLower_eq_toUpper, Char.toUpper_eq_of_not_isLower (Char.not_isLower_of_isUpper hc)]
  | false => exact .inl (by rw [← h, Char.toLower_eq_of_not_isUpper (by simp [hc])])

theorem isAlpha_iff :
    c.isAlpha = true ↔ (0x41 ≤ c.toNat ∧ c.toNat ≤ 0x5A) ∨ (0x61 ≤ c.toNat ∧ c.toNat ≤ 0x7A) := by
  simp only [Char.isAlpha, Char.isUpper, Char.isLower, Bool.or_eq_true, Bool.and_eq_true, decide_eq_true_eq,
    UInt32.le_iff_toNat_le, ge_iff_le]
  exact Iff.rfl

theorem toLower_toNat_lt : c.toLower.toNat < 0x80 ↔ c.toNat < 0x80 := by
  cases hc : c.isAlpha with
  | true =>
    have lower := isAlpha_iff.1 (Char.isAlpha_toLower_eq_isAlpha c ▸ hc)
    have := isAlpha_iff.1 hc
    omega
  | false => rw [Char.toLower_eq_of_not_isUpper (by simp_all [Char.isAlpha])]

theorem isBlank_of_isAlpha (h : c.isAlpha = true) : isBlank c = false := by
  rw [isAlpha_iff] at h
  rw [← Bool.not_eq_true]
  simp only [isBlank, Bool.or_eq_true, Bool.and_eq_true, decide_eq_true_eq, beq_iff_eq]
  omega

theorem isBlank_toLower (c : Char) : isBlank c.toLower = isBlank c := by
  cases hc : c.isAlpha with
  | true => rw [isBlank_of_isAlpha hc, isBlank_of_isAlpha (by simpa using hc)]
  | false => rw [Char.toLower_eq_of_not_isUpper (by simp_all [Char.isAlpha])]

/-- The lower case of an ASCII text. -/
theorem lower_ascii (h : ∀ c ∈ cs, c.toNat < 0x80) :
    lower (String.ofList cs) = String.ofList (cs.map Char.toLower) := by
  have from_here (before : List Char) : lowerFrom before cs = cs.map Char.toLower := by
    induction cs generalizing before with
    | nil => rfl
    | cons c cs ih =>
      obtain ⟨hc, hcs⟩ := List.forall_mem_cons.1 h
      have plain : (c.toNat == 0x3A3) = false := by simp; omega
      simp only [lowerFrom, plain, Bool.false_and, Bool.false_eq_true, if_false, lowerChar, if_pos hc, ih hcs]
      rfl
  rw [lower, String.toList_ofList, from_here]

/-! ## Words -/

theorem foldLetter_ascii (h : c.toNat < 0x80) : foldLetter c = c.toLower := by
  have (n : Nat) (hn : 0x80 ≤ n) : (c.toNat == n) = false := by simp; omega
  simp [foldLetter, this]

/-- What is alike to an ASCII text is spelled like it. -/
theorem Alike.fold (h : Alike cs ds) (ascii : ∀ d ∈ ds, d.toNat < 0x80) :
    cs.map foldLetter = ds.map Char.toLower := by
  have cs_ascii := (h.forall fun _ => toLower_toNat_lt).2 ascii
  rw [← h]
  exact List.map_congr_left fun c hc => foldLetter_ascii (cs_ascii c hc)

/-- Besides letters the dotted and dotless i, the long s and the Kelvin sign count as letters. -/
theorem of_isAlpha_foldLetter (h : (foldLetter c).isAlpha = true) :
    c.isAlpha = true ∨ c.toNat = 0x130 ∨ c.toNat = 0x131 ∨ c.toNat = 0x17F ∨ c.toNat = 0x212A := by
  by_cases special : c.toNat = 0x130 ∨ c.toNat = 0x131 ∨ c.toNat = 0x17F ∨ c.toNat = 0x212A
  · exact .inr special
  · simp only [not_or] at special
    simp [foldLetter, special] at h
    exact .inl h

theorem isBlank_of_isAlpha_foldLetter (h : (foldLetter c).isAlpha = true) : isBlank c = false := by
  rcases of_isAlpha_foldLetter h with h | h
  · exact isBlank_of_isAlpha h
  · rw [← Bool.not_eq_true]
    simp only [isBlank, Bool.or_eq_true, Bool.and_eq_true, decide_eq_true_eq, beq_iff_eq]
    omega

theorem afterWord?_eq_some : afterWord? word cs = some b ↔ ∃ a, cs = a ++ b ∧ a.map foldLetter = word := by
  induction word generalizing cs with
  | nil => simp [afterWord?, eq_comm]
  | cons w ws ih =>
    cases cs with
    | nil => simp [afterWord?]
    | cons c cs =>
      simp only [afterWord?]
      split
      · next hc =>
        rw [ih]
        constructor
        · rintro ⟨a, rfl, ha⟩
          exact ⟨c :: a, rfl, by rw [List.map_cons, ha, beq_iff_eq.1 hc]⟩
        · rintro ⟨a, hcs, ha⟩
          obtain ⟨c', a, rfl, -, ha⟩ := List.map_eq_cons_iff.1 ha
          obtain ⟨-, rfl⟩ := List.cons.inj hcs
          exact ⟨a, rfl, ha⟩
      · next hc =>
        simp only [reduceCtorEq, false_iff]
        rintro ⟨a, hcs, ha⟩
        obtain ⟨c', a, rfl, hw, -⟩ := List.map_eq_cons_iff.1 ha
        obtain ⟨rfl, -⟩ := List.cons.inj hcs
        simp [hw] at hc

theorem afterWord?_append (h : a.map foldLetter = word) : afterWord? word (a ++ b) = some b :=
  afterWord?_eq_some.2 ⟨a, rfl, h⟩

/-- What is spelled like a word of letters begins with no blank. -/
theorem front_of_fold {w : Char} {ws : List Char} (h : a.map foldLetter = w :: ws) (hw : w.isAlpha = true) :
    ∀ c ∈ (a ++ b).head?, isBlank c = false := by
  obtain ⟨c, a, rfl, hc, -⟩ := List.map_eq_cons_iff.1 h
  simpa using isBlank_of_isAlpha_foldLetter (c := c) (by rw [hc, hw])

/-- A text does not begin with a word if fewer characters than the word has stand before the end or before a
    character that is not in the word. -/
theorem afterWord?_none (short : a.length < word.length)
    (h : b = [] ∨ ∃ x rest, b = x :: rest ∧ foldLetter x ∉ word) : afterWord? word (a ++ b) = none := by
  induction a generalizing word with
  | nil =>
    obtain ⟨w, ws, rfl⟩ := List.exists_cons_of_length_pos (by simpa using short)
    rcases h with rfl | ⟨x, rest, rfl, hx⟩
    · rfl
    · have : (foldLetter x == w) = false := by simp; rintro rfl; simp at hx
      simp [afterWord?, this]
  | cons c a ih =>
    obtain ⟨w, ws, rfl⟩ := List.exists_cons_of_length_pos (Nat.zero_lt_of_lt short)
    simp only [List.cons_append, afterWord?]
    split
    · refine ih (by simpa using short) (h.imp_right ?_)
      rintro ⟨x, rest, hb, hx⟩
      exact ⟨x, rest, hb, fun hw => hx (by simp [hw])⟩
    · rfl

/-! ## Cuts -/

theorem cutAt_of_none (h : ∀ c ∈ a, p c = false) : cutAt p a = [a] := by
  induction a with
  | nil => rfl
  | cons c a ih =>
    obtain ⟨hc, ha⟩ := List.forall_mem_cons.1 h
    simp [cutAt, hc, ih ha]

theorem cutAt_ne_nil (p : Char → Bool) (cs : List Char) : cutAt p cs ≠ [] := by
  cases cs with
  | nil => simp [cutAt]
  | cons c cs =>
    simp only [cutAt]
    split
    · simp
    · split <;> simp

/-- What stands before a cut and what stands behind it are cut apart from each other. -/
theorem cutAt_at (hx : p x = true) (a b : List Char) : cutAt p (a ++ x :: b) = cutAt p a ++ cutAt p b := by
  induction a with
  | nil => simp [cutAt, hx]
  | cons c a ih =>
    obtain ⟨piece, pieces, cut⟩ := List.exists_cons_of_ne_nil (cutAt_ne_nil p a)
    rw [List.cons_append, cutAt, cutAt, ih, cut]
    split <;> rfl

theorem cutAt_append (h : ∀ c ∈ a, p c = false) (hx : p x = true) : cutAt p (a ++ x :: b) = a :: cutAt p b := by
  rw [cutAt_at hx, cutAt_of_none h, List.singleton_append]

/-! ## Words anywhere -/

theorem hasInfix_iff : hasInfix word cs = true ↔ word <:+: cs := by
  induction cs with
  | nil => simp [hasInfix]
  | cons c cs ih => simp [hasInfix, ih, List.infix_cons_iff]

/-- A word without a character does not reach across it. -/
theorem infix_of_cut (hx : x ∉ word) (h : word <:+: a ++ x :: b) : word <:+: a ∨ word <:+: b := by
  have front {w : List Char} (hw : w ≠ []) (sub : ∀ c ∈ w, c ∈ word) : ¬ w <+: x :: b := by
    rintro ⟨rest, hr⟩
    obtain ⟨c, w, rfl⟩ := List.exists_cons_of_ne_nil hw
    obtain ⟨rfl, -⟩ := List.cons.inj hr
    exact hx (sub c (by simp))
  rcases List.infix_append_iff_ne_nil.1 h with h | h | ⟨w, w', -, hw', rfl, -, pre⟩
  · exact .inl h
  · rcases List.infix_cons_iff.1 h with h | h
    · cases word with
      | nil => exact .inl (List.nil_infix)
      | cons c word => exact absurd h (front (by simp) fun c hc => hc)
    · exact .inr h
  · exact absurd pre (front hw' fun c hc => by simp [hc])

end DegreePlan.Text
