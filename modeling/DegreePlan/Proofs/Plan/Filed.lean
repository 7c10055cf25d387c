import DegreePlan.Plan.Document
import DegreePlan.Proofs.Fallible
import DegreePlan.Proofs.Json.Writable
import DegreePlan.Proofs.Plan.Order

/-!
# Plans that can be written to the cache

The cache gets what is exported, as long as no whole number in it is too long to be written. A save of any other plan
breaks off.
-/

namespace DegreePlan

open Number

/-! ## Semesters -/

namespace Semester

variable {s : Semester}

/-- The semester has a record, and none of its numbers is too long to be written. -/
def Written (s : Semester) : Prop := ∃ json, s.toJson = .ok json ∧ json.isWritable = true

theorem written_iff :
    s.Written ↔ (∃ x, s.average = .ok x) ∧ Short s.id ∧ Short s.term.year ∧ Short s.total ∧
    s.maxCredits.isWritable = true ∧ ∀ e ∈ s.courses, e.toJson.isWritable = true := by
  unfold Written toJson
  cases s.average with
  | error f => simp only [error_bind, reduceCtorEq, false_and, exists_false]
  | ok x =>
    simp only [ok_bind, pure_eq_ok, exists_eq_left', Json.isWritable_obj, List.forall_mem_cons, Json.isWritable_int,
      Json.isWritable_arr, List.forall_mem_map, Json.isWritable_str, Json.isWritable_real,
      Json.isWritable_bool, true_and, List.not_mem_nil, IsEmpty.forall_iff, implies_true, and_true, Except.ok.injEq]
    constructor
    · rintro ⟨id, year, courses, total, limit⟩
      exact ⟨⟨x, rfl⟩, id, year, total, limit, courses⟩
    · rintro ⟨-, id, year, total, limit, courses⟩
      exact ⟨id, year, courses, total, limit⟩

end Semester

/-! ## Plans -/

namespace Plan

variable {p q : Plan} {json : Json}

/-- The plan has a document, and none of its numbers is too long to be written. -/
def Written (p : Plan) : Prop := ∃ json, p.toJson = .ok json ∧ json.isWritable = true

instance (p : Plan) : Decidable p.Written :=
  inferInstanceAs (Decidable (∃ json, p.toJson = .ok json ∧ json.isWritable = true))

theorem written_iff : p.Written ↔ ∀ s ∈ p.semesters, s.Dated ∧ s.Written := by
  constructor
  · rintro ⟨json, h, written⟩ s hs
    simp only [toJson, bind_eq_ok, pure_eq_ok] at h
    obtain ⟨l, listed, pairs, records, rfl⟩ := h
    obtain ⟨dated, rfl⟩ := ordered_eq_ok.1 listed
    obtain ⟨pair, mem, made⟩ := ok_of_mapM records (mem_sorted.2 hs)
    simp only [bind_eq_ok, pure_eq_ok] at made
    obtain ⟨record, hr, rfl⟩ := made
    exact ⟨dated s hs, record, hr, Json.isWritable_obj.1 written _ mem⟩
  · intro h
    have written : ∀ s ∈ p.semesters, s.Written := fun s hs => (h s hs).2
    choose! record made short using written
    refine ⟨.obj ((sorted p.semesters).map fun s => (toString s.id, record s)), ?_, Json.isWritable_obj.2 ?_⟩
    · rw [toJson, ordered_of_dated fun s hs => (h s hs).1, ok_bind,
        mapM_ok fun s hs => by rw [made s (mem_sorted.1 hs)]; rfl]
      rfl
    · exact List.forall_mem_map.2 fun s hs => short s (mem_sorted.1 hs)

/-- What can be written does not depend on the order of the semesters. -/
theorem Written.of_perm (h : p.Written) (perm : q.semesters.Perm p.semesters) : q.Written :=
  written_iff.2 fun s hs => written_iff.1 h s (perm.mem_iff.1 hs)

/-- Where the ids of the semesters can be written, the plan is filed as it is exported. -/
theorem filed_eq_toJson (short : ∀ s ∈ p.semesters, (Json.int s.id).isWritable = true) : p.filed = p.toJson := by
  unfold filed toJson
  cases listed : p.ordered with
  | error f => simp only [error_bind]
  | ok l =>
    have rounds : ∀ s ∈ l, (do
        if !(Json.int s.id).isWritable then throw (.value .integerTooLongToWrite)
        return (toString s.id, ← s.toJson) : Except Fault (String × Json)) =
          do return (toString s.id, ← s.toJson) :=
      fun s hs => by rw [short s ((ordered_perm listed).mem_iff.1 hs)]; rfl
    simp only [ok_bind, mapM_congr rounds]

/-- What can be written is filed. -/
theorem filed_of_isWritable (h : p.toJson = .ok json) (written : json.isWritable = true) : p.filed = .ok json := by
  refine (filed_eq_toJson fun s hs => ?_).trans h
  obtain ⟨-, semester⟩ := written_iff.1 ⟨json, h, written⟩ s hs
  exact Json.isWritable_int.2 (Semester.written_iff.1 semester).2.1

end Plan
end DegreePlan
