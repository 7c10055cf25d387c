import DegreePlan.Proofs.Requirement.Evaluation

/-!
# What a verdict names

A verdict names courses of the tree only, each once. The missing ones are not planned and stand in a leaf that is
not met, the others are planned. What no choice can avoid and is neither completed nor planned is missing.
-/

namespace DegreePlan

namespace Requirement

theorem leafCodesOf_eq (parts : List Requirement) : leafCodesOf parts = parts.flatMap leafCodes := by
  induction parts with
  | nil => rfl
  | cons r rs ih => rw [leafCodesOf, ih, List.flatMap_cons]

theorem leafCodes_all (parts : List Requirement) : (all parts).leafCodes = parts.flatMap leafCodes := by
  rw [leafCodes, leafCodesOf_eq]

theorem leafCodes_any (parts : List Requirement) : (any parts).leafCodes = parts.flatMap leafCodes := by
  rw [leafCodes, leafCodesOf_eq]

theorem requiredLeaves_all (parts : List Requirement) : (all parts).requiredLeaves = parts.flatMap requiredLeaves := by
  rw [requiredLeaves]
  induction parts with
  | nil => rfl
  | cons r rs ih => rw [requiredLeavesOf, ih, List.flatMap_cons]

/-- A leaf of the tree asks for the course with this minimum. -/
inductive HasLeaf (code : String) (minimum : Option Letter) : Requirement → Prop where
  | course : HasLeaf code minimum (course code minimum)
  | all {parts : List Requirement} {p : Requirement} (part : p ∈ parts) (leaf : HasLeaf code minimum p) :
    HasLeaf code minimum (all parts)
  | any {parts : List Requirement} {p : Requirement} (part : p ∈ parts) (leaf : HasLeaf code minimum p) :
    HasLeaf code minimum (any parts)

theorem HasLeaf.mem_leafCodes {code : String} {minimum : Option Letter} {r : Requirement} (h : r.HasLeaf code minimum) :
    code ∈ r.leafCodes := by
  induction h with
  | course => simp [leafCodes]
  | all part _ ih => rw [leafCodes_all]; exact List.mem_flatMap_of_mem part ih
  | any part _ ih => rw [leafCodes_any]; exact List.mem_flatMap_of_mem part ih

/-- The course stands in a leaf that the completed courses do not meet. -/
def Unmet (r : Requirement) (completed : Completed) (code : String) : Prop :=
  ∃ minimum, r.HasLeaf code minimum ∧ completed.hard code minimum = false

section Unmet

variable {completed : Completed} {code : String} {parts : List Requirement} {p : Requirement}

theorem Unmet.all (part : p ∈ parts) (h : p.Unmet completed code) : (all parts).Unmet completed code :=
  h.imp fun _ => .imp_left (.all part)

theorem Unmet.any (part : p ∈ parts) (h : p.Unmet completed code) : (any parts).Unmet completed code :=
  h.imp fun _ => .imp_left (.any part)

end Unmet

end Requirement

namespace Verdict

@[simp] theorem mem_missing_all {vs : List Verdict} {code : String} :
    code ∈ (all vs).missing ↔ ∃ v ∈ vs, code ∈ v.missing := by
  simp [all]

@[simp] theorem mem_softVia_all {vs : List Verdict} {code : String} :
    code ∈ (all vs).softVia ↔ ∃ v ∈ vs, code ∈ v.softVia := by
  simp [all]

/-- The lists of a verdict repeat no course, and their courses pass a test each. -/
structure Lists (v : Verdict) (missing softVia : String → Prop) : Prop where
  missing_once : v.missing.Nodup
  softVia_once : v.softVia.Nodup
  missing : ∀ code ∈ v.missing, missing code
  softVia : ∀ code ∈ v.softVia, softVia code

variable {missing softVia missing' softVia' : String → Prop}

theorem Lists.mono {v : Verdict} (h : v.Lists missing softVia) (hm : ∀ code, missing code → missing' code)
    (hs : ∀ code, softVia code → softVia' code) : v.Lists missing' softVia' :=
  ⟨h.missing_once, h.softVia_once, fun code hc => hm code (h.missing code hc),
    fun code hc => hs code (h.softVia code hc)⟩

theorem Lists.satisfied : Lists { satisfied := true } missing softVia := ⟨.nil, .nil, by simp, by simp⟩

theorem Lists.all {vs : List Verdict} (h : ∀ v ∈ vs, v.Lists missing softVia) :
    (Verdict.all vs).Lists missing softVia where
  missing_once := Course.nodup_distinct _
  softVia_once := Course.nodup_distinct _
  missing := by simpa using fun code v hv => (h v hv).missing code
  softVia := by simpa using fun code v hv => (h v hv).softVia code

theorem Lists.any {vs : List Verdict} (hne : vs ≠ []) (h : ∀ v ∈ vs, v.Lists missing softVia) :
    (Verdict.any vs).Lists missing softVia := by
  rcases any_cases hne with ⟨-, he⟩ | ⟨-, taken, -⟩
  · rw [he]; exact .satisfied
  · exact h _ taken

end Verdict

namespace Requirement.Built

variable {r : Requirement} {completed : Completed} {planned : List String}

/-- What a verdict names is unmet; it is missing if it is not planned, and leaned on if it is. -/
theorem lists (built : r.Built) (completed : Completed) (planned : List String) :
    (r.evaluate completed planned).Lists (fun code => code ∉ planned ∧ r.Unmet completed code)
      (fun code => code ∈ planned ∧ r.Unmet completed code) := by
  refine built.tree (fun code minimum => ?course) (fun parts _ _ ih => ?all) (fun parts hne _ ih => ?any)
  case course =>
    rw [evaluate, evaluateCourse, Completed.meets_eq]
    split
    · exact .satisfied
    · next hard =>
      have unmet : (course code minimum).Unmet completed code := ⟨minimum, .course, by simpa using hard⟩
      split
      · next hp => exact ⟨by simp, by simp, by simp, by simpa using ⟨by simpa using hp, unmet⟩⟩
      · next hp => exact ⟨by simp, by simp, by simpa using ⟨by simpa using hp, unmet⟩, by simp⟩
  case all =>
    rw [evaluate_all]
    exact .all (List.forall_mem_map.2 fun p hp =>
      (ih p hp).mono (fun _ => .imp_right (.all hp)) fun _ => .imp_right (.all hp))
  case any =>
    rw [evaluate_any]
    exact .any (by simpa using hne) (List.forall_mem_map.2 fun p hp =>
      (ih p hp).mono (fun _ => .imp_right (.any hp)) fun _ => .imp_right (.any hp))

/-- A leaf that no choice avoids is missing unless its course is completed or planned. -/
theorem missing_of_required (built : r.Built) {code : String} (required : code ∈ r.requiredLeaves)
    (uncompleted : code ∉ completed.codes) (unplanned : code ∉ planned) :
    code ∈ (r.evaluate completed planned).missing := by
  revert required
  refine built.tree (fun name minimum required => ?course) (fun parts _ _ ih required => ?all)
    (fun parts _ _ _ required => ?any)
  case course =>
    obtain rfl : code = name := by simpa [requiredLeaves] using required
    have hard : completed.hard code minimum = false := by simp [Completed.hard, uncompleted]
    simp [evaluate, evaluateCourse, Completed.meets_eq, hard, unplanned]
  case all =>
    rw [requiredLeaves_all] at required
    obtain ⟨p, hp, required⟩ := List.mem_flatMap.1 required
    rw [evaluate_all, Verdict.mem_missing_all]
    exact ⟨_, List.mem_map_of_mem hp, ih p hp required⟩
  case any => simp [requiredLeaves] at required

/-- The lists of a verdict repeat no course and share none, and hold only courses of the tree. A missing course is not
    planned and stands in a leaf that is not met, the courses that the verdict leans on are planned, and what every way
    through the tree needs is missing unless it is completed or planned. -/
theorem report_shape (built : r.Built) (completed : Completed) (planned : List String) :
    let v := r.evaluate completed planned
    v.missing.Nodup ∧ v.softVia.Nodup ∧ v.missing ⊆ r.codes ∧ v.softVia ⊆ r.codes ∧
      (∀ code ∈ v.missing, code ∉ planned ∧ ∃ minimum, r.HasLeaf code minimum ∧
        completed.hard code minimum = false) ∧
      v.softVia ⊆ planned ∧ v.missing.Disjoint v.softVia ∧
      ∀ code ∈ r.requiredCodes, code ∉ completed.codes → code ∉ planned → code ∈ v.missing := by
  have h := built.lists completed planned
  have mentioned {code : String} (unmet : r.Unmet completed code) : code ∈ r.codes := by
    obtain ⟨minimum, leaf, -⟩ := unmet
    exact Course.mem_distinct.2 leaf.mem_leafCodes
  refine ⟨h.missing_once, h.softVia_once, fun code hc => mentioned (h.missing code hc).2,
    fun code hc => mentioned (h.softVia code hc).2, h.missing, fun code hc => (h.softVia code hc).1,
    fun code hm hs => (h.missing code hm).1 (h.softVia code hs).1, fun code required => ?_⟩
  exact built.missing_of_required (Course.mem_distinct.1 required)

end Requirement.Built

namespace Requirement

/-- A course that is needed twice, once with a minimum, a choice that mentions it again, and two courses more. -/
def repeated : Requirement :=
  all [course "CS 1301" none, course "CS 1301" (some .b), any [course "MATH 1551" none, course "CS 1301" (some .a)],
    course "PHYS 2211" none, course "CS 2050" none]

/-- With a C on record one leaf of the course is met and the others are not. -/
theorem repeated_report :
    let completed : Completed := .graded [("CS 1301", some (.letter .c))]
    let v := repeated.evaluate completed ["PHYS 2211"]
    repeated.Built ∧
      v = { satisfied := false, missing := ["CS 1301", "MATH 1551", "CS 2050"], softVia := ["PHYS 2211"] } ∧
      (∀ code ∈ v.missing, code ∉ ["PHYS 2211"] ∧
        ∃ minimum, repeated.HasLeaf code minimum ∧ completed.hard code minimum = false) ∧
      v.missing.Disjoint v.softVia ∧ "CS 2050" ∈ repeated.requiredCodes ∧ "CS 2050" ∈ v.missing := by
  intro completed v
  have built : repeated.Built := by simp +decide [repeated]
  have required : "CS 2050" ∈ repeated.requiredCodes := by decide
  obtain ⟨-, -, -, -, unmet, -, apart, listed⟩ := built.report_shape completed ["PHYS 2211"]
  exact ⟨built, by decide, unmet, apart, required, listed _ required (by decide) (by decide)⟩

end Requirement

end DegreePlan
