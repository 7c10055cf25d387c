import DegreePlan.Proofs.Requirement.Report

/-!
# What a verdict advises

The courses that a verdict names are enough. Whoever plans the missing ones is no longer blocked, and
whoever completes the missing and the planned ones satisfies the requirement. Following the advice may
change what the verdict says of any other part of the tree, so the courses of a part are followed down to
the leaves while everything else only grows.
-/

namespace DegreePlan

theorem Letter.a_meets (least : Letter) : Letter.a.meets least = true := by cases least <;> rfl

namespace Completed

/-- Adds courses to the completed ones. Where grades are kept the courses get the best one, which
    replaces the grade of a course that was completed before. -/
def award (earned : List String) : Completed → Completed
  | ungraded codes => ungraded (codes ++ earned)
  | graded marks =>
    graded (earned.map (fun code => (code, some (.letter .a))) ++
      marks.filter fun (code, _) => !earned.contains code)

theorem lookup_award (earned : List String) (marks : List (String × Option Mark)) (code : String) :
    (earned.map (fun code => (code, some (Mark.letter .a))) ++
      marks.filter fun (code, _) => !earned.contains code).lookup code =
      if code ∈ earned then some (some (.letter .a)) else marks.lookup code := by
  rw [List.lookup_append, lookup_map_const, lookup_filter_key (!earned.contains ·)]
  by_cases h : code ∈ earned <;> simp [h]

/-- A course that is awarded passes every check. -/
theorem hard_of_earned {completed : Completed} {earned : List String} {code : String} (h : code ∈ earned)
    (minimum : Option Letter) : (completed.award earned).hard code minimum = true := by
  rw [← meets_eq]
  cases completed with
  | ungraded codes => simp [award, meets, h]
  | graded marks =>
    simp only [award, meets, lookup_award, if_pos h]
    cases minimum with
    | none => rfl
    | some least => exact Letter.a_meets least

/-- A course that passed a check passes it after any award. -/
theorem hard_award {completed : Completed} {code : String} {minimum : Option Letter} (earned : List String)
    (h : completed.hard code minimum = true) : (completed.award earned).hard code minimum = true := by
  by_cases he : code ∈ earned
  · exact hard_of_earned he minimum
  rw [← meets_eq] at h ⊢
  cases completed with
  | ungraded codes =>
    have : code ∈ codes := by simpa [meets] using h
    simp [award, meets, this]
  | graded marks => simpa only [award, meets, lookup_award, if_neg he] using h

end Completed

namespace Requirement.Built

variable {r : Requirement}

/-- A tree holds once its leaves hold at the courses that the verdict names, if the leaves that completed
    courses meet hold as well. -/
theorem holds_of_named (built : r.Built) (completed : Completed) (planned : List String)
    {leaf : String → Option Letter → Bool}
    (kept : ∀ code minimum, completed.hard code minimum = true → leaf code minimum = true)
    (needed : ∀ code ∈ (r.evaluate completed planned).missing, ∀ minimum, leaf code minimum = true)
    (leaned : ∀ code ∈ (r.evaluate completed planned).softVia, ∀ minimum, leaf code minimum = true) :
    r.holds leaf = true := by
  revert needed leaned
  refine built.tree (fun code minimum needed leaned => ?course) (fun parts _ _ ih needed leaned => ?all)
    (fun parts hne built ih needed leaned => ?any)
  case course =>
    rw [holds_course]
    by_cases hh : completed.hard code minimum = true
    · exact kept code minimum hh
    · rw [evaluate, evaluateCourse, Completed.meets_eq, if_neg hh] at needed leaned
      by_cases hp : planned.contains code = true
      · exact leaned code (by rw [if_pos hp]; simp) minimum
      · exact needed code (by rw [if_neg hp]; simp) minimum
  case all =>
    rw [evaluate_all] at needed leaned
    rw [holds_all, List.all_eq_true]
    refine fun p hp => ih p hp (fun code hc => needed code ?_) (fun code hc => leaned code ?_)
    · simpa [Verdict.all] using ⟨p, hp, hc⟩
    · simpa [Verdict.all] using ⟨p, hp, hc⟩
  case any =>
    rw [evaluate_any] at needed leaned
    rw [holds_any, List.any_eq_true]
    rcases Verdict.any_cases (show parts.map (evaluate completed planned) ≠ [] by simpa using hne) with
      ⟨satisfied, -⟩ | ⟨-, taken, -⟩
    · -- a satisfied part names no course, so nothing has to be done for it
      obtain ⟨p, hp, hs⟩ : ∃ p ∈ parts, (p.evaluate completed planned).satisfied = true := by
        simpa using satisfied
      obtain ⟨hm, hv⟩ := ((built p hp).decides completed planned).clean.1 hs
      exact ⟨p, hp, ih p hp (by simp [hm]) (by simp [hv])⟩
    · -- the verdict is that of the part that was taken
      obtain ⟨p, hp, he⟩ := List.mem_map.1 taken
      rw [← he] at needed leaned
      exact ⟨p, hp, ih p hp needed leaned⟩

/-- A verdict leans on planned courses only. -/
theorem planned_of_softVia (built : r.Built) {completed : Completed} {planned : List String} :
    (r.evaluate completed planned).softVia ⊆ planned :=
  fun code hc => ((built.lists completed planned).softVia code hc).1

/-- Once the missing courses are planned too, nothing is missing. -/
theorem missing_after_plan (built : r.Built) {completed : Completed} {planned : List String} :
    (r.evaluate completed (planned ++ (r.evaluate completed planned).missing)).missing = [] := by
  refine (built.decides _ _).missing.2 (built.holds_of_named completed planned ?_ ?_ ?_)
  · intro code minimum h
    simp [Completed.ok, h]
  · intro code hc minimum
    simp [Completed.ok, hc]
  · intro code hc minimum
    simp [Completed.ok, built.planned_of_softVia hc]

/-- Once the missing courses are planned too, nothing is missing. Once the missing courses and those that
    the verdict leans on are completed, the requirement is satisfied. -/
theorem advice_suffices (built : r.Built) (completed : Completed) (planned : List String) :
    let v := r.evaluate completed planned
    (r.evaluate completed (planned ++ v.missing)).missing = [] ∧
      (r.evaluate (completed.award (v.missing ++ v.softVia)) planned).satisfied = true := by
  refine ⟨built.missing_after_plan, ?_⟩
  rw [(built.decides _ _).satisfied]
  refine built.holds_of_named completed planned ?_ ?_ ?_
  · exact fun code minimum h => Completed.hard_award _ h
  · exact fun code hc minimum => Completed.hard_of_earned (List.mem_append_left _ hc) minimum
  · exact fun code hc minimum => Completed.hard_of_earned (List.mem_append_right _ hc) minimum

end Requirement.Built

/-- A grade below the minimum has to be replaced, and of the choice the planned course is taken. -/
theorem Requirement.sample_advice :
    let completed : Completed := .graded [("CS 1301", some (.letter .d))]
    let planned := ["CS 1331"]
    let v := sample.evaluate completed planned
    v = { satisfied := false, missing := ["CS 1301"], softVia := ["CS 1331"] } ∧
      (sample.evaluate completed (planned ++ v.missing)).missing = [] ∧
      (sample.evaluate (completed.award (v.missing ++ v.softVia)) planned).satisfied = true :=
  ⟨by decide, Built.advice_suffices sample_built _ _⟩

end DegreePlan
