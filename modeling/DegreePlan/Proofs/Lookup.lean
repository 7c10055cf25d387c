import Mathlib.Data.List.Basic

/-!
# Lookups in tables

A table is a list of rows under keys, of which the first row of a key counts.
-/

namespace DegreePlan

variable {β γ : Type}

theorem lookup_cons_ite (key other : String) (row : β) (rows : List (String × β)) :
    ((key, row) :: rows).lookup other = if other = key then some row else rows.lookup other := by
  by_cases h : other = key
  · simp [h]
  · rw [List.lookup_cons, beq_eq_false_iff_ne.2 h, if_neg h]

/-- Rows that are chosen by their keys are found exactly under the keys that are chosen. -/
theorem lookup_filter_key (keep : String → Bool) (rows : List (String × β)) (key : String) :
    (rows.filter (keep ·.1)).lookup key = if keep key then rows.lookup key else none := by
  induction rows with
  | nil => simp
  | cons row rows ih =>
    obtain ⟨k, row⟩ := row
    rw [List.filter_cons, apply_ite (List.lookup key), lookup_cons_ite, lookup_cons_ite, ih]
    by_cases h : key = k
    · subst h; cases keep key <;> rfl
    · simp [h]

theorem lookup_map_row (f : β → γ) (rows : List (String × β)) (key : String) :
    (rows.map fun (k, row) => (k, f row)).lookup key = (rows.lookup key).map f := by
  induction rows with
  | nil => rfl
  | cons row rows ih =>
    rw [List.map_cons, lookup_cons_ite, lookup_cons_ite, ih]
    split <;> rfl

/-- Something is found under the keys of the table. -/
theorem isSome_lookup (rows : List (String × β)) (key : String) :
    (rows.lookup key).isSome = (rows.map (·.1)).contains key := by
  induction rows with
  | nil => rfl
  | cons row rows ih =>
    rw [List.map_cons, List.contains_cons, ← ih, lookup_cons_ite]
    by_cases h : key = row.1 <;> simp [h]

/-- Where no key comes twice, the order of the rows does not count. -/
theorem lookup_perm {rows rows' : List (String × β)} (perm : rows.Perm rows')
    (once : (rows'.map (·.1)).Nodup) (key : String) : rows.lookup key = rows'.lookup key := by
  induction perm with
  | nil => rfl
  | cons row _ ih => rw [lookup_cons_ite, lookup_cons_ite, ih (List.nodup_cons.1 once).2]
  | swap a b rows =>
    obtain ⟨⟨j, a⟩, ⟨k, b⟩⟩ := a, b
    have different : k ≠ j := fun same => (List.nodup_cons.1 once).1 (by simp [same])
    simp only [lookup_cons_ite]
    by_cases h : key = j
    · rw [if_pos h, if_pos h, if_neg fun hk => different (hk.symm.trans h)]
    · simp only [if_neg h]
  | trans first second ih ih' =>
    rw [ih ((second.map _).nodup_iff.2 once), ih' once]

theorem lookup_map_const (keys : List String) (row : β) (key : String) :
    (keys.map fun k => (k, row)).lookup key = if key ∈ keys then some row else none := by
  induction keys with
  | nil => rfl
  | cons k keys ih =>
    rw [List.map_cons, lookup_cons_ite, ih]
    by_cases h : key = k <;> simp [h]

end DegreePlan
