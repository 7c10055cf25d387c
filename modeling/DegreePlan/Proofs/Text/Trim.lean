import Mathlib.Data.List.DropRight
import DegreePlan.Text.Blank

/-!
# Trimmed texts

A text is trimmed if no blank stands at either end of it. Trimming gives a trimmed text and leaves one as
it is, so trimming twice is trimming once.
-/

namespace DegreePlan.Text

variable {p : Char → Bool} {a b cs : List Char}

/-- Nothing but blanks. -/
def Blank (cs : List Char) : Prop := ∀ c ∈ cs, isBlank c = true

theorem blank_nil : Blank [] := by simp [Blank]

theorem blank_space : Blank [' '] := by simp [Blank]; decide

theorem Blank.append (ha : Blank a) (hb : Blank b) : Blank (a ++ b) :=
  fun c hc => (List.mem_append.1 hc).elim (ha c) (hb c)

theorem blank_takeWhile (cs : List Char) : Blank (cs.takeWhile isBlank) := fun _ hc => List.mem_takeWhile_imp hc

/-- No blank stands at either end. -/
structure Trimmed (cs : List Char) : Prop where
  front : ∀ c ∈ cs.head?, isBlank c = false
  back : ∀ c ∈ cs.getLast?, isBlank c = false

theorem dropWhile_of_head (h : ∀ c ∈ cs.head?, p c = false) : cs.dropWhile p = cs := by
  cases cs with
  | nil => rfl
  | cons c cs => rw [List.dropWhile_cons, h c rfl, if_neg Bool.false_ne_true]

/-- If the first character stays, all do. -/
theorem dropWhile_of_some (h : ∃ c ∈ cs.head?, p c = false) : cs.dropWhile p = cs := by
  obtain ⟨c, hc, stays⟩ := h
  exact dropWhile_of_head fun d hd => Option.mem_unique hc hd ▸ stays

theorem head_append_of_some {q : Char → Prop} (h : ∃ c ∈ a.head?, q c) (b : List Char) :
    ∃ c ∈ (a ++ b).head?, q c := by
  obtain ⟨c, hc, holds⟩ := h
  cases a with
  | nil => cases hc
  | cons d a => exact ⟨c, hc, holds⟩

theorem last_append_of_some {q : Char → Prop} (h : ∃ c ∈ b.getLast?, q c) (a : List Char) :
    ∃ c ∈ (a ++ b).getLast?, q c := by
  obtain ⟨c, hc, holds⟩ := h
  have shown : b ≠ [] := by
    rintro rfl
    cases hc
  exact ⟨c, by rwa [List.getLast?_append_of_ne_nil _ shown], holds⟩

theorem isBlank_space : isBlank ' ' = true := by decide

/-- A space in front is dropped, and nothing else if no blank follows. -/
theorem dropWhile_space (h : ∀ c ∈ cs.head?, isBlank c = false) : (' ' :: cs).dropWhile isBlank = cs := by
  rw [List.dropWhile_cons, if_pos isBlank_space, dropWhile_of_head h]

theorem head_dropWhile (p : Char → Bool) (cs : List Char) : ∀ c ∈ (cs.dropWhile p).head?, p c = false := by
  intro c hc
  have := List.head?_dropWhile_not p cs
  rwa [hc] at this

theorem dropEndWhile_of_last (h : ∀ c ∈ cs.getLast?, p c = false) : dropEndWhile p cs = cs := by
  rw [dropEndWhile, dropWhile_of_head (by rwa [List.head?_reverse]), List.reverse_reverse]

theorem last_dropEndWhile (p : Char → Bool) (cs : List Char) :
    ∀ c ∈ (dropEndWhile p cs).getLast?, p c = false := by
  rw [dropEndWhile, List.getLast?_reverse]
  exact head_dropWhile p cs.reverse

/-- What is left after characters were dropped at the end begins as before. -/
theorem head_dropEndWhile (p : Char → Bool) (cs : List Char) :
    ∀ c ∈ (dropEndWhile p cs).head?, c ∈ cs.head? := by
  obtain ⟨rest, hr⟩ : dropEndWhile p cs <+: cs := List.rdropWhile_prefix p cs
  intro c hc
  obtain ⟨tail, ht⟩ := List.head?_eq_some_iff.1 hc
  rw [← hr, ht]
  rfl

theorem dropEndWhile_of_all (h : ∀ c ∈ b, p c = true) : dropEndWhile p (a ++ b) = dropEndWhile p a := by
  rw [dropEndWhile, List.reverse_append, List.dropWhile_append_of_pos (by simpa using h), ← dropEndWhile]

/-- Behind a character that stays only the rest is dropped. -/
theorem dropEndWhile_append (h : ∃ c ∈ a.getLast?, p c = false) (b : List Char) :
    dropEndWhile p (a ++ b) = a ++ dropEndWhile p b := by
  have stop : a.reverse.dropWhile p = a.reverse := dropWhile_of_some (by rwa [List.head?_reverse])
  simp only [dropEndWhile, List.reverse_append, List.dropWhile_append, stop, List.isEmpty_iff]
  split
  · next none => simp [none]
  · simp

theorem dropWhile_append (h : ∃ c ∈ b.head?, p c = false) (a : List Char) :
    (a ++ b).dropWhile p = a.dropWhile p ++ b := by
  rw [List.dropWhile_append]
  split
  · next none => rw [List.isEmpty_iff.1 none, dropWhile_of_some h, List.nil_append]
  · rfl

theorem trim_of_trimmed (h : Trimmed cs) : trim cs = cs := by
  rw [trim, dropWhile_of_head h.front, dropEndWhile_of_last h.back]

theorem trimmed_trim (cs : List Char) : Trimmed (trim cs) where
  front c hc := head_dropWhile isBlank cs c (head_dropEndWhile isBlank _ c hc)
  back := last_dropEndWhile isBlank _

theorem strip_strip (s : String) : strip (strip s) = strip s := by
  rw [strip, strip, String.toList_ofList, trim_of_trimmed (trimmed_trim s.toList)]

end DegreePlan.Text
