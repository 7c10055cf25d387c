import Mathlib.Data.Finset.Card
import DegreePlan.Proofs.Requirement.Advice

/-!
# The shortest way out

Where no course occurs in two leaves the missing list is as short as can be: no set of fewer courses, of the tree or
not, opens the requirement once it is planned. The parts of a group then share no course, so each part has to be
opened by courses of its own.
-/

namespace DegreePlan

namespace Verdict

theorem length_missing_fewestMissing_le (v : Verdict) (vs : List Verdict) :
    ∀ w ∈ v :: vs, (v.fewestMissing vs).missing.length ≤ w.missing.length := by
  induction vs generalizing v with
  | nil => simp [fewestMissing]
  | cons u vs ih =>
    rw [fewestMissing]
    split
    · next fewer =>
      have below := ih u
      simp only [List.forall_mem_cons] at below ⊢
      exact ⟨by omega, below⟩
    · next fewer =>
      have below := ih v
      simp only [List.forall_mem_cons] at below ⊢
      exact ⟨below.1, by omega, below.2⟩

/-- No part of a choice has fewer missing courses than the choice. -/
theorem length_missing_any_le {vs : List Verdict} {v : Verdict} (hv : v ∈ vs) :
    (any vs).missing.length ≤ v.missing.length := by
  unfold any
  split
  · simp
  · cases hf : vs.find? (·.isOpen) with
    | some w => simp
    | none =>
      obtain ⟨u, us, rfl⟩ := List.exists_cons_of_ne_nil (List.ne_nil_of_mem hv)
      exact length_missing_fewestMissing_le u us v hv

end Verdict

namespace Requirement

/-! ## Courses of a set within a tree -/

/-- How many courses of a set stand among these codes. -/
def inside (plans codes : List String) : Nat := (plans.toFinset.filter (· ∈ codes)).card

variable {plans codes codes' : List String}

theorem inside_mono (h : codes ⊆ codes') : inside plans codes ≤ inside plans codes' :=
  Finset.card_le_card fun code hc => by
    rw [Finset.mem_filter] at hc ⊢
    exact hc.imp_right (@h code)

theorem inside_le_card (plans codes : List String) : inside plans codes ≤ plans.toFinset.card :=
  Finset.card_filter_le _ _

theorem inside_append (apart : codes.Disjoint codes') :
    inside plans (codes ++ codes') = inside plans codes + inside plans codes' := by
  simp only [inside, List.mem_append, Finset.filter_or]
  exact Finset.card_union_of_disjoint (Finset.disjoint_filter.2 fun code _ hc hc' => apart hc hc')

/-- Parts that share no course add up. -/
theorem length_flatMap_le_inside {list : Requirement → List String} {parts : List Requirement}
    (once : (parts.flatMap leafCodes).Nodup) (h : ∀ p ∈ parts, (list p).length ≤ inside plans p.leafCodes) :
    (parts.flatMap list).length ≤ inside plans (parts.flatMap leafCodes) := by
  induction parts with
  | nil => simp
  | cons p parts ih =>
    obtain ⟨hp, hps⟩ := List.forall_mem_cons.1 h
    rw [List.flatMap_cons] at once
    rw [List.flatMap_cons, List.flatMap_cons, List.length_append, inside_append (List.disjoint_of_nodup_append once)]
    exact Nat.add_le_add hp (ih once.of_append_right hps)

namespace Built

variable {r : Requirement} {completed : Completed} {planned : List String}

/-- A tree whose courses differ misses no more courses than a set has inside the tree that opens it. -/
theorem length_missing_le_inside (built : r.Built) (once : r.leafCodes.Nodup)
    (opens : r.holds (completed.ok (planned ++ plans)) = true) :
    (r.evaluate completed planned).missing.length ≤ inside plans r.leafCodes := by
  revert once opens
  refine built.tree (fun code minimum once opens => ?course) (fun parts _ _ ih once opens => ?all)
    (fun parts hne _ ih once opens => ?any)
  case course =>
    rw [evaluate, evaluateCourse, Completed.meets_eq]
    split
    · simp
    · next hard =>
      split
      · simp
      · next unplanned =>
        have unplanned : code ∉ planned := by simpa using unplanned
        have chosen : code ∈ plans := by simpa [Completed.ok, hard, unplanned] using opens
        exact Finset.card_pos.2 ⟨code, by simpa [leafCodes] using chosen⟩
  case all =>
    rw [leafCodes_all] at once ⊢
    rw [holds_all, List.all_eq_true] at opens
    rw [evaluate_all, Verdict.all]
    refine (Course.length_distinct_le _).trans ?_
    rw [List.flatMap_map]
    refine length_flatMap_le_inside once fun p hp => ih p hp ?_ (opens p hp)
    exact (List.nodup_flatMap.1 once).1 p hp
  case any =>
    rw [leafCodes_any] at once ⊢
    rw [holds_any, List.any_eq_true] at opens
    obtain ⟨p, hp, opens⟩ := opens
    rw [evaluate_any]
    calc (Verdict.any (parts.map (evaluate completed planned))).missing.length
      _ ≤ (p.evaluate completed planned).missing.length := Verdict.length_missing_any_le (List.mem_map_of_mem hp)
      _ ≤ inside plans p.leafCodes := ih p hp ((List.nodup_flatMap.1 once).1 p hp) opens
      _ ≤ inside plans (parts.flatMap leafCodes) := inside_mono fun code hc => List.mem_flatMap_of_mem hp hc

/-- Where no course stands in two leaves, no smaller set of courses than the missing ones opens the tree once it is
    planned. The missing courses, each of which is listed once, do. -/
theorem missing_shortest (built : r.Built) (once : r.leafCodes.Nodup) (completed : Completed) (planned : List String) :
    let v := r.evaluate completed planned
    (∀ plans : List String, (r.evaluate completed (planned ++ plans)).missing = [] →
        v.missing.length ≤ plans.toFinset.card) ∧
      v.missing.Nodup ∧ (r.evaluate completed (planned ++ v.missing)).missing = [] := by
  refine ⟨fun plans opens => ?_, (built.lists completed planned).missing_once, built.missing_after_plan⟩
  have opens : r.holds (completed.ok (planned ++ plans)) = true := (built.decides _ _).missing.1 opens
  exact (built.length_missing_le_inside once opens).trans (inside_le_card plans _)

end Built

/-- A choice between three courses and two, and a course besides. -/
def branching : Requirement :=
  all [any [all [course "CS 1301" none, course "CS 1331" none, course "CS 1332" none],
      all [course "MATH 1551" (some .c), course "MATH 1552" none]],
    course "PHYS 2211" none]

/-- One course of the longer branch is planned, so both branches miss two; a plan for the other one is no shorter. -/
theorem branching_shortest :
    let completed : Completed := .graded [("MATH 1551", some (.letter .d))]
    let planned := ["CS 1331"]
    let plans := ["MATH 1552", "PHYS 2211", "MATH 1551", "MATH 1552"]
    let v := branching.evaluate completed planned
    branching.Built ∧ branching.leafCodes.Nodup ∧ v.missing = ["CS 1301", "CS 1332", "PHYS 2211"] ∧
      (branching.evaluate completed (planned ++ plans)).missing = [] ∧ v.missing.length ≤ plans.toFinset.card ∧
      (branching.evaluate completed (planned ++ v.missing)).missing = [] := by
  intro completed planned plans v
  have built : branching.Built := by simp +decide [branching]
  have once : branching.leafCodes.Nodup := by decide
  have opens : (branching.evaluate completed (planned ++ plans)).missing = [] := by decide
  have shortest := built.missing_shortest once completed planned
  exact ⟨built, once, by decide, opens, shortest.1 plans opens, shortest.2.2⟩

end Requirement
end DegreePlan
