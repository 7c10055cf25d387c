import DegreePlan.Proofs.Course.Distinct
import DegreePlan.Proofs.Fallible
import DegreePlan.Proofs.Lookup
import DegreePlan.Requirement.Evaluation

/-!
# What evaluation decides

A tree is a formula over its leaves: groups stand for conjunction and disjunction. Evaluation decides
two readings of the formula at once, one in which only completed courses count and one in which planned
courses count too. The verdict says no more and no less than that, and evaluating the values that trees
are given as never stops half-way.
-/

namespace DegreePlan

/-! ## Trees that the constructors build -/

namespace Requirement

/-- The trees that stand at the end of a sequence of constructions, each of which succeeded. -/
inductive Built : Requirement → Prop where
  | leaf {course minimum : Json} {r : Requirement} (h : leaf course minimum = .ok r) : Built r
  | join {connective : Connective} {parts : List Requirement} {r : Requirement} (built : ∀ p ∈ parts, Built p)
      (h : join connective parts = .ok r) : Built r

/-- A leaf that is accepted is a course. -/
theorem leaf_eq_ok {v minimum : Json} {r : Requirement} (h : leaf v minimum = .ok r) :
    ∃ code least, r = course code least := by
  unfold leaf at h
  split at h
  · cases h
  · rename_i code _
    split at h
    · cases h
    · split at h
      · cases h; exact ⟨code, none, rfl⟩
      · split at h
        · rename_i l _; cases h; exact ⟨code, some l, rfl⟩
        · cases h

/-- A group that is accepted has parts. -/
theorem join_eq_ok {c : Connective} {parts : List Requirement} {r : Requirement} (h : join c parts = .ok r) :
    parts ≠ [] ∧ (r = all parts ∨ r = any parts) := by
  unfold join at h
  split at h
  · cases h
  · rename_i hp
    refine ⟨by simpa using hp, ?_⟩
    cases c <;> cases h <;> simp

/-- A tree is a course or a group of trees that is not empty. -/
@[elab_as_elim]
theorem Built.tree {motive : Requirement → Prop} (course : ∀ code minimum, motive (course code minimum))
    (all : ∀ parts, parts ≠ [] → (∀ p ∈ parts, Built p) → (∀ p ∈ parts, motive p) →
      motive (all parts))
    (any : ∀ parts, parts ≠ [] → (∀ p ∈ parts, Built p) → (∀ p ∈ parts, motive p) →
      motive (any parts))
    {r : Requirement} (h : Built r) : motive r := by
  induction h with
  | leaf h => obtain ⟨code, minimum, rfl⟩ := leaf_eq_ok h; exact course code minimum
  | join built h ih =>
    obtain ⟨hp, rfl | rfl⟩ := join_eq_ok h
    · exact all _ hp built ih
    · exact any _ hp built ih

/-- A course is built from its code exactly if that is not blank. -/
@[simp] theorem built_course {code : String} {minimum : Option Letter} :
    (course code minimum).Built ↔ (Text.strip code).isEmpty = false := by
  constructor
  · intro h
    cases h with
    | leaf h =>
      unfold Requirement.leaf at h
      split at h
      · cases h
      · split at h
        · cases h
        · next shown =>
          split at h
          · cases h; simpa using shown
          · split at h
            · cases h; simpa using shown
            · cases h
    | join _ h => obtain ⟨-, h | h⟩ := join_eq_ok h <;> cases h
  · intro shown
    cases minimum with
    | none =>
      exact .leaf (show Requirement.leaf (.str code) .null = _ by simp only [Requirement.leaf, Json.text?, shown]; rfl)
    | some l =>
      exact .leaf (show Requirement.leaf (.str code) (.str l.text) = _ by
        simp only [Requirement.leaf, Json.text?, shown]; cases l <;> rfl)

/-- A group by its connective. -/
def group (c : Connective) (parts : List Requirement) : Requirement :=
  match c with
  | .all => all parts
  | .any => any parts

theorem join_eq_ok_iff {c : Connective} {parts : List Requirement} {r : Requirement} :
    join c parts = .ok r ↔ parts ≠ [] ∧ group c parts = r := by
  unfold join group
  cases parts <;> cases c <;> simp

/-- A group is built from its parts, of which there must be one at least. -/
theorem built_group {c : Connective} {parts : List Requirement} :
    (group c parts).Built ↔ parts ≠ [] ∧ ∀ p ∈ parts, p.Built := by
  constructor
  · intro h
    generalize hr : group c parts = r at h
    cases h with
    | leaf h => obtain ⟨_, _, rfl⟩ := leaf_eq_ok h; cases c <;> cases hr
    | @join c' parts' _ built h =>
      obtain ⟨some, rfl⟩ := join_eq_ok_iff.1 h
      obtain rfl : parts = parts' := by cases c <;> cases c' <;> cases hr <;> rfl
      exact ⟨some, built⟩
  · rintro ⟨some, built⟩
    exact .join built (join_eq_ok_iff.2 ⟨some, rfl⟩)

@[simp] theorem built_all {parts : List Requirement} :
    (all parts).Built ↔ parts ≠ [] ∧ ∀ p ∈ parts, p.Built := built_group (c := .all)

@[simp] theorem built_any {parts : List Requirement} :
    (any parts).Built ↔ parts ≠ [] ∧ ∀ p ∈ parts, p.Built := built_group (c := .any)

theorem evaluateEach_eq (completed : Completed) (planned : List String) (parts : List Requirement) :
    evaluateEach completed planned parts = parts.map (evaluate completed planned) := by
  induction parts with
  | nil => rfl
  | cons r rs ih => rw [evaluateEach, ih, List.map_cons]

theorem evaluate_all (completed : Completed) (planned : List String) (parts : List Requirement) :
    (all parts).evaluate completed planned = .all (parts.map (evaluate completed planned)) := by
  rw [evaluate, evaluateEach_eq]

theorem evaluate_any (completed : Completed) (planned : List String) (parts : List Requirement) :
    (any parts).evaluate completed planned = .any (parts.map (evaluate completed planned)) := by
  rw [evaluate, evaluateEach_eq]

/-! ## Trees as formulas -/

mutual

/-- The formula of the tree when its leaves have these truth values. -/
def holds (leaf : String → Option Letter → Bool) : Requirement → Bool
  | course code minimum => leaf code minimum
  | all parts => holdsAll leaf parts
  | any parts => holdsAny leaf parts

/-- All of several formulas. -/
def holdsAll (leaf : String → Option Letter → Bool) : List Requirement → Bool
  | [] => true
  | r :: rs => holds leaf r && holdsAll leaf rs

/-- Some of several formulas. -/
def holdsAny (leaf : String → Option Letter → Bool) : List Requirement → Bool
  | [] => false
  | r :: rs => holds leaf r || holdsAny leaf rs

end

variable {leaf leaf' : String → Option Letter → Bool}

@[simp] theorem holds_course (code : String) (minimum : Option Letter) :
    (course code minimum).holds leaf = leaf code minimum := by rw [holds]

@[simp] theorem holds_all (parts : List Requirement) : (all parts).holds leaf = parts.all (·.holds leaf) := by
  rw [holds]
  induction parts with
  | nil => rfl
  | cons r rs ih => rw [holdsAll, ih, List.all_cons]

@[simp] theorem holds_any (parts : List Requirement) : (any parts).holds leaf = parts.any (·.holds leaf) := by
  rw [holds]
  induction parts with
  | nil => rfl
  | cons r rs ih => rw [holdsAny, ih, List.any_cons]

/-- A formula without negation stays true when more leaves are true. -/
theorem Built.holds_mono {r : Requirement} (built : r.Built)
    (le : ∀ code minimum, leaf code minimum = true → leaf' code minimum = true) (h : r.holds leaf = true) :
    r.holds leaf' = true := by
  revert h
  refine built.tree (fun code minimum h => ?course) (fun parts _ _ ih h => ?all) (fun parts _ _ ih h => ?any)
  case course => exact le code minimum (by simpa using h)
  case all =>
    simp only [holds_all, List.all_eq_true] at h ⊢
    exact fun p hp => ih p hp (h p hp)
  case any =>
    simp only [holds_any, List.any_eq_true] at h ⊢
    obtain ⟨p, hp, h⟩ := h
    exact ⟨p, hp, ih p hp h⟩

end Requirement

/-! ## Leaves -/

namespace Completed

/-- The mark recorded for a course. -/
def mark? (completed : Completed) (code : String) : Option Mark :=
  match completed with
  | ungraded _ => none
  | graded marks => (marks.lookup code).join

/-- The course is completed, and if a minimum is set and a mark is recorded, the mark reaches it. -/
def hard (completed : Completed) (code : String) (minimum : Option Letter) : Bool :=
  completed.codes.contains code &&
    match minimum, completed.mark? code with
    | some least, some mark => mark.meets least
    | _, _ => true

/-- The course is completed as above or planned. -/
def ok (completed : Completed) (planned : List String) (code : String) (minimum : Option Letter) : Bool :=
  completed.hard code minimum || planned.contains code

theorem meets_eq (completed : Completed) (code : String) (minimum : Option Letter) :
    completed.meets code minimum = completed.hard code minimum := by
  cases completed with
  | ungraded codes => cases minimum <;> simp [meets, hard, Completed.codes, mark?]
  | graded marks =>
    have listed := isSome_lookup marks code
    cases h : marks.lookup code with
    | none => rw [h] at listed; simp only [meets, hard, Completed.codes, h, ← listed]; rfl
    | some mark =>
      rw [h] at listed
      simp only [meets, hard, Completed.codes, mark?, h, ← listed]
      cases mark <;> cases minimum <;> rfl

end Completed

/-! ## Verdicts -/

namespace Verdict

/-- A verdict tells two truth values: it is satisfied exactly if the first holds, nothing is missing
    exactly if the second does, and a satisfied verdict is one that names no course. -/
structure Decides (v : Verdict) (hard ok : Bool) : Prop where
  satisfied : v.satisfied = hard
  missing : v.missing = [] ↔ ok = true
  clean : v.satisfied = true ↔ v.missing = [] ∧ v.softVia = []

theorem fewestMissing_mem (v : Verdict) (vs : List Verdict) : v.fewestMissing vs ∈ v :: vs := by
  induction vs generalizing v with
  | nil => simp [fewestMissing]
  | cons w ws ih =>
    rw [fewestMissing]
    split
    · exact List.mem_cons_of_mem v (ih w)
    · have := ih v
      simp only [List.mem_cons] at this ⊢
      tauto

/-- A choice with a satisfied part names no course, and one without is judged like one of its parts,
    where something is missing only if it is in every part. -/
theorem any_cases {vs : List Verdict} (hne : vs ≠ []) :
    ((∃ v ∈ vs, v.satisfied = true) ∧ any vs = { satisfied := true }) ∨
      ((∀ v ∈ vs, v.satisfied = false) ∧ any vs ∈ vs ∧
        ((any vs).missing = [] ↔ ∃ v ∈ vs, v.missing = [])) := by
  by_cases hs : vs.any (·.satisfied) = true
  · exact .inl ⟨by simpa using hs, by unfold any; rw [if_pos hs]⟩
  have unsatisfied : ∀ v ∈ vs, v.satisfied = false := by simpa using hs
  -- the verdict has the fields of the part that is taken, which is not satisfied either
  have taken : ∀ v ∈ vs, ({ satisfied := false, missing := v.missing, softVia := v.softVia } : Verdict) = v :=
    fun v hv => by rw [← unsatisfied v hv]
  refine .inr ⟨unsatisfied, ?_⟩
  cases hf : vs.find? (·.isOpen) with
  | some v =>
    have hv := List.mem_of_find?_eq_some hf
    have hm : v.missing = [] := by simpa [isOpen] using List.find?_some hf
    have he : any vs = v := by
      unfold any
      rw [if_neg hs, hf]
      rw [← hm]; exact taken v hv
    rw [he]
    exact ⟨hv, fun _ => ⟨v, hv, hm⟩, fun _ => hm⟩
  | none =>
    have needed : ∀ v ∈ vs, v.missing ≠ [] := by simpa [isOpen] using hf
    obtain ⟨v, ws, rfl⟩ := List.exists_cons_of_ne_nil hne
    have hv := fewestMissing_mem v ws
    have he : any (v :: ws) = v.fewestMissing ws := by
      unfold any
      rw [if_neg hs, hf]
      exact taken _ hv
    rw [he]
    exact ⟨hv, fun h => absurd h (needed _ hv), fun ⟨w, hw, h⟩ => absurd h (needed w hw)⟩

variable {α : Type} {parts : List α} {judge : α → Verdict} {hard ok : α → Bool}

theorem Decides.all (h : ∀ p ∈ parts, (judge p).Decides (hard p) (ok p)) :
    (Verdict.all (parts.map judge)).Decides (parts.all hard) (parts.all ok) where
  satisfied := by
    rw [Verdict.all, List.all_map]
    exact Bool.eq_iff_iff.2 (by simpa using forall₂_congr fun p hp => by rw [(h p hp).satisfied])
  missing := by
    simp only [Verdict.all, Course.distinct_eq_nil, List.flatMap_eq_nil_iff, List.forall_mem_map, List.all_eq_true]
    exact forall₂_congr fun p hp => (h p hp).missing
  clean := by
    simp only [Verdict.all, Course.distinct_eq_nil, List.flatMap_eq_nil_iff, List.forall_mem_map, List.all_map,
      List.all_eq_true, ← forall₂_and]
    exact forall₂_congr fun p hp => (h p hp).clean

theorem Decides.any (hne : parts ≠ []) (h : ∀ p ∈ parts, (judge p).Decides (hard p) (ok p)) :
    (Verdict.any (parts.map judge)).Decides (parts.any hard) (parts.any ok) := by
  have hne : parts.map judge ≠ [] := by simpa using hne
  rcases any_cases hne with ⟨some_satisfied, he⟩ | ⟨hs, hm, open_iff⟩
  · obtain ⟨p, hp, hs⟩ : ∃ p ∈ parts, (judge p).satisfied = true := by simpa using some_satisfied
    have hh : hard p = true := (h p hp).satisfied ▸ hs
    have ho : ok p = true := (h p hp).missing.1 ((h p hp).clean.1 hs).1
    rw [he]
    exact ⟨(List.any_eq_true.2 ⟨p, hp, hh⟩).symm, by simpa using ⟨p, hp, ho⟩, by simp⟩
  · obtain ⟨q, hq, he⟩ := List.mem_map.1 hm
    refine ⟨?_, ?_, he ▸ (h q hq).clean⟩
    · have unmet : ∀ p ∈ parts, hard p = false := fun p hp =>
        (h p hp).satisfied ▸ hs _ (List.mem_map_of_mem hp)
      rw [hs _ hm, eq_comm, List.any_eq_false]
      simpa using unmet
    · simp only [open_iff, List.any_eq_true, List.mem_map, exists_exists_and_eq_and]
      exact exists_congr fun p => and_congr_right fun hp => (h p hp).missing

end Verdict

/-- Evaluation decides whether the tree holds by what is completed, and whether it holds by what is
    completed or planned. -/
theorem Requirement.Built.decides {r : Requirement} (built : r.Built) (completed : Completed) (planned : List String) :
    (r.evaluate completed planned).Decides (r.holds completed.hard) (r.holds (completed.ok planned)) := by
  refine built.tree (fun code minimum => ?course) (fun parts _ _ ih => ?all) (fun parts hne _ ih => ?any)
  case course =>
    rw [evaluate, evaluateCourse, Completed.meets_eq, holds_course, holds_course, Completed.ok]
    cases completed.hard code minimum <;> cases planned.contains code <;> exact ⟨rfl, by simp, by simp⟩
  case all => rw [evaluate_all, holds_all, holds_all]; exact .all ih
  case any => rw [evaluate_any, holds_any, holds_any]; exact .any hne ih

/-! ## Values in place of trees -/

/-- A requirement as evaluation is handed it: the minimum may be any value, a group may be empty, and a
    value may be no requirement at all. -/
inductive Node where
  | course (code : String) (minimum : Json)
  | group (connective : Connective) (parts : List Node)
  | other (value : Json)

/-- What stops an evaluation: a fault, or a choice without a part that could be the best. -/
inductive Stop where
  | fault (fault : Fault)
  | nothingToChoose

/-- Completed courses as evaluation is handed them: codes, or grades of any kind by code. -/
inductive Taken where
  | listed (codes : List String)
  | graded (grades : List (String × Json))

namespace Taken

/-- The completed courses with the marks of the grades. -/
def completed : Taken → Completed
  | listed codes => .ungraded codes
  | graded grades => .graded (grades.map fun (code, grade) => (code, Mark.of? grade))

/-- Checks one course. The grade scale is asked if there is a minimum and a grade. -/
def meets (taken : Taken) (code : String) (minimum : Json) : Except Stop Bool :=
  match taken with
  | listed codes => .ok (codes.contains code)
  | graded grades =>
    match grades.lookup code, minimum with
    | none, _ => .ok false
    | some _, .null => .ok true
    | some .null, _ => .ok true
    | some grade, minimum => (meetsMinimum grade minimum).mapError .fault

end Taken

/-- The best of several verdicts, of which there must be one at least. -/
def Verdict.choose : List Verdict → Except Stop Verdict
  | [] => .error .nothingToChoose
  | v :: vs => .ok (any (v :: vs))

namespace Node

mutual

/-- Judges a value as a requirement. -/
def evaluate (taken : Taken) (planned : List String) : Node → Except Stop Verdict
  | course code minimum => do
    if ← taken.meets code minimum then return { satisfied := true }
    else if planned.contains code then return { satisfied := false, softVia := [code] }
    else return { satisfied := false, missing := [code] }
  | group .all parts => do return .all (← evaluateEach taken planned parts)
  | group .any parts => do Verdict.choose (← evaluateEach taken planned parts)
  | other value => .error (.fault (.tree (.notATree value)))

/-- Judges several values. -/
def evaluateEach (taken : Taken) (planned : List String) : List Node → Except Stop (List Verdict)
  | [] => .ok []
  | n :: ns => do return (← evaluate taken planned n) :: (← evaluateEach taken planned ns)

end

end Node

namespace Requirement

mutual

/-- The tree as a value. -/
def node : Requirement → Node
  | course code minimum => .course code (minimum.elim .null fun l => .str l.text)
  | all parts => .group .all (nodes parts)
  | any parts => .group .any (nodes parts)

/-- Several trees as values. -/
def nodes : List Requirement → List Node
  | [] => []
  | r :: rs => node r :: nodes rs

end

theorem nodes_eq (parts : List Requirement) : nodes parts = parts.map node := by
  induction parts with
  | nil => rfl
  | cons r rs ih => rw [nodes, ih, List.map_cons]

end Requirement

theorem Letter.of?_text (l : Letter) : Letter.of? (.str l.text) = some l := by cases l <;> rfl

/-- The minimum of a tree is a letter, so the grade scale never refuses it. -/
theorem Taken.meets_letter (taken : Taken) (code : String) (minimum : Option Letter) :
    taken.meets code (minimum.elim .null fun l => .str l.text) = .ok (taken.completed.meets code minimum) := by
  cases taken with
  | listed codes => rfl
  | graded grades =>
    simp only [meets, completed, Completed.meets, lookup_map_row]
    cases grades.lookup code with
    | none => rfl
    | some grade =>
      cases minimum with
      | none => cases grade <;> rfl
      | some l =>
        have scale : ∀ grade, meetsMinimum grade (.str l.text) = .ok ((Letter.of? grade).elim false (·.meets l)) :=
          fun grade => by simp only [meetsMinimum, Letter.of?_text]
        have meets_elim : ∀ known : Option Letter,
            (known.elim Mark.unpointed Mark.letter).meets l = known.elim false (·.meets l) := by rintro (_ | _) <;> rfl
        cases grade <;> simp [Mark.of?, scale, Except.mapError, meets_elim]

theorem Node.evaluateEach_ok {taken : Taken} {planned : List String} {parts : List Requirement}
    {v : Requirement → Verdict} (h : ∀ p ∈ parts, p.node.evaluate taken planned = .ok (v p)) :
    evaluateEach taken planned (parts.map Requirement.node) = .ok (parts.map v) := by
  induction parts with
  | nil => rfl
  | cons p parts ih =>
    obtain ⟨hp, hps⟩ := List.forall_mem_cons.1 h
    rw [List.map_cons, evaluateEach, hp, ih hps]
    rfl

namespace Requirement.Built

/-- A tree that is given as a value is judged, and judged like the tree. -/
theorem evaluate_node {r : Requirement} (built : r.Built) (taken : Taken) (planned : List String) :
    r.node.evaluate taken planned = .ok (r.evaluate taken.completed planned) := by
  refine built.tree (fun code minimum => ?course) (fun parts _ _ ih => ?all) (fun parts hne _ ih => ?any)
  case course =>
    rw [node, Node.evaluate, Taken.meets_letter, evaluate, evaluateCourse]
    cases taken.completed.meets code minimum <;> cases planned.contains code <;> rfl
  case all =>
    rw [node, nodes_eq, Node.evaluate, Node.evaluateEach_ok ih, evaluate_all]
    rfl
  case any =>
    obtain ⟨p, ps, rfl⟩ := List.exists_cons_of_ne_nil hne
    rw [node, nodes_eq, Node.evaluate, Node.evaluateEach_ok ih, evaluate_any]
    rfl

/-- Evaluating a tree that was built gives a verdict. It is satisfied exactly if the tree holds by the
    completed courses, nothing is missing exactly if the tree holds by the completed and the planned
    courses, and one of satisfied, pending and blocked is true of it. -/
theorem evaluate_exact {r : Requirement} (built : r.Built) (taken : Taken) (planned : List String) :
    ∃ v, r.node.evaluate taken planned = .ok v ∧ v = r.evaluate taken.completed planned ∧
      (v.satisfied = true ↔ r.holds taken.completed.hard = true) ∧
      (v.missing = [] ↔ r.holds (taken.completed.ok planned) = true) ∧
      (v.satisfied = true ↔ v.missing = [] ∧ v.softVia = []) ∧
      [v.satisfied, v.isPending, v.isBlocked].count true = 1 := by
  have d := built.decides taken.completed planned
  refine ⟨_, built.evaluate_node taken planned, rfl, by rw [d.satisfied], d.missing, d.clean, ?_⟩
  generalize r.evaluate taken.completed planned = v at d
  have clean := d.clean
  obtain ⟨satisfied, missing, softVia⟩ := v
  cases satisfied <;> cases missing <;> cases softVia <;> simp [Verdict.isPending, Verdict.isBlocked] at clean ⊢

end Requirement.Built

namespace Requirement

/-- A course with a minimum, and a choice between two others. -/
def sample : Requirement :=
  all [course "CS 1301" (some .c), any [course "MATH 1551" none, course "CS 1331" none]]

theorem sample_built : sample.Built := by simp +decide [sample]

/-- The grade is below the minimum but the course is planned again, and the course of the choice counts
    without a grade. -/
theorem sample_pending :
    let taken : Taken := .graded [("CS 1301", .str "D"), ("CS 1331", .null)]
    let planned := ["CS 1301"]
    (∃ v, sample.node.evaluate taken planned = .ok v ∧ v = sample.evaluate taken.completed planned ∧
      (v.satisfied = true ↔ sample.holds taken.completed.hard = true) ∧
      (v.missing = [] ↔ sample.holds (taken.completed.ok planned) = true) ∧
      (v.satisfied = true ↔ v.missing = [] ∧ v.softVia = []) ∧
      [v.satisfied, v.isPending, v.isBlocked].count true = 1) ∧
      sample.evaluate taken.completed planned = { satisfied := false, softVia := ["CS 1301"] } :=
  ⟨Built.evaluate_exact sample_built _ _, by decide⟩

end Requirement

end DegreePlan
