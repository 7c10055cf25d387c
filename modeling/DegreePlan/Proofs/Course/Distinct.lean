import Mathlib.Data.List.Induction
import Mathlib.Data.List.Nodup
import Mathlib.Data.List.Perm.Subperm
import DegreePlan.Course.Code

/-!
# Every code once

A list of codes in which every code stands once, where it came first, has the same members. Lists can be merged in any
order: where one list follows another, each may first be brought into this form on its own.
-/

namespace DegreePlan.Course

/-- A code that is new comes behind the others. -/
theorem distinct_snoc (codes : List String) (code : String) :
    distinct (codes ++ [code]) = if code ∈ distinct codes then distinct codes else distinct codes ++ [code] := by
  rw [distinct, List.foldl_append, ← distinct, List.foldl_cons, List.foldl_nil]
  simp only [List.contains_iff_mem]

@[simp] theorem mem_distinct {codes : List String} {s : String} : s ∈ distinct codes ↔ s ∈ codes := by
  induction codes using List.reverseRecOn with
  | nil => rfl
  | append_singleton codes code ih =>
    rw [distinct_snoc, List.mem_append, List.mem_singleton, ← ih]
    split
    · next listed => exact ⟨.inl, fun h => h.elim id fun same => same ▸ listed⟩
    · rw [List.mem_append, List.mem_singleton]

theorem distinct_concat (codes : List String) (code : String) :
    distinct (codes ++ [code]) = if code ∈ codes then distinct codes else distinct codes ++ [code] := by
  simp only [distinct_snoc, mem_distinct]

theorem nodup_distinct (codes : List String) : (distinct codes).Nodup := by
  induction codes using List.reverseRecOn with
  | nil => exact List.nodup_nil
  | append_singleton codes code ih =>
    rw [distinct_snoc]
    split
    · exact ih
    · next new => exact List.concat_eq_append ▸ ih.concat new

theorem length_distinct_le (codes : List String) : (distinct codes).length ≤ codes.length :=
  (List.subperm_of_subset (nodup_distinct codes) fun _ h => mem_distinct.1 h).length_le

@[simp] theorem distinct_eq_nil {codes : List String} : distinct codes = [] ↔ codes = [] := by
  simp [List.eq_nil_iff_forall_not_mem]

theorem distinct_eq_eraseDups (codes : List String) : distinct codes = codes.eraseDups := by
  induction codes using List.reverseRecOn with
  | nil => rfl
  | append_singleton codes code ih =>
    rw [distinct_concat, List.eraseDups_append, ← ih]
    by_cases listed : code ∈ codes <;> simp [List.removeAll, List.eraseDups_cons, listed]

theorem distinct_of_nodup {codes : List String} (once : codes.Nodup) : distinct codes = codes := by
  induction codes using List.reverseRecOn with
  | nil => rfl
  | append_singleton codes code ih =>
    obtain ⟨before, -, new⟩ := List.nodup_append.1 once
    rw [distinct_concat, if_neg fun listed => new code listed code (by simp) rfl, ih before]

/-- Courses that are listed once already can stand for all of them. -/
theorem distinct_append_distinct (codes codes' : List String) :
    distinct (codes ++ distinct codes') = distinct (codes ++ codes') := by
  induction codes' using List.reverseRecOn with
  | nil => rfl
  | append_singleton codes' code ih =>
    rw [← List.append_assoc, distinct_concat, distinct_concat]
    by_cases listed : code ∈ codes'
    · rw [if_pos listed, if_pos (List.mem_append_right codes listed), ih]
    · rw [if_neg listed, ← List.append_assoc, distinct_concat, ih]
      simp only [List.mem_append, mem_distinct]

theorem distinct_distinct_append (codes codes' : List String) :
    distinct (distinct codes ++ codes') = distinct (codes ++ codes') := by
  induction codes' using List.reverseRecOn with
  | nil => rw [List.append_nil, List.append_nil, distinct_of_nodup (nodup_distinct codes)]
  | append_singleton codes' code ih =>
    rw [← List.append_assoc, ← List.append_assoc, distinct_concat, distinct_concat, ih]
    simp only [List.mem_append, mem_distinct]

end DegreePlan.Course
