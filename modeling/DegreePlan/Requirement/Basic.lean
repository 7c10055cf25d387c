import DegreePlan.Course.Code
import DegreePlan.Course.Grade

/-!
# Requirement trees

What must be taken before a course: one course, perhaps with a minimum grade, all of several
requirements, or any of them.
-/

namespace DegreePlan

/-- A requirement. The parts of `all` and `any` are never empty where a requirement is read. -/
inductive Requirement where
  | course (code : String) (minimum : Option Letter)
  | all (parts : List Requirement)
  | any (parts : List Requirement)
deriving Inhabited

namespace Requirement

mutual

/-- Every leaf's course, from left to right. -/
def leafCodes : Requirement → List String
  | course code _ => [code]
  | all parts => leafCodesOf parts
  | any parts => leafCodesOf parts

/-- The leaves of several requirements. -/
def leafCodesOf : List Requirement → List String
  | [] => []
  | r :: rs => leafCodes r ++ leafCodesOf rs

end

/-- The courses that the tree mentions, each once, in the order of the tree. -/
def codes (r : Requirement) : List String := Course.distinct r.leafCodes

mutual

/-- The leaves that no choice can avoid. -/
def requiredLeaves : Requirement → List String
  | course code _ => [code]
  | all parts => requiredLeavesOf parts
  | any _ => []

/-- The unavoidable leaves of several requirements. -/
def requiredLeavesOf : List Requirement → List String
  | [] => []
  | r :: rs => requiredLeaves r ++ requiredLeavesOf rs

end

/-- The courses that every way through the tree needs, each once. -/
def requiredCodes (r : Requirement) : List String := Course.distinct r.requiredLeaves

/-- Joins requirements by a connective; there must be one at least. -/
def join (connective : Connective) (parts : List Requirement) : Except Fault Requirement :=
  if parts.isEmpty then .error (.tree (.noChildren connective))
  else .ok (match connective with
    | .all => .all parts
    | .any => .any parts)

/-- Joins parts of which some may be no requirements. -/
def joinParts (connective : Connective) (parts : List (Requirement ⊕ Json)) :
    Except Fault Requirement := do
  if parts.isEmpty then throw (.tree (.noChildren connective))
  join connective (← parts.mapM fun
    | .inl r => .ok r
    | .inr v => .error (.tree (.notARequirement connective v)))

/-- A leaf from values of any kind: the course must be a text that is not blank, the minimum null
    or a letter. -/
def leaf (course minimum : Json) : Except Fault Requirement :=
  match course.text? with
  | none => .error (.tree (.noCourse course))
  | some code =>
    if (Text.strip code).isEmpty then .error (.tree (.noCourse course))
    else match minimum with
      | .null => .ok (.course code none)
      | _ =>
        match Letter.of? minimum with
        | some l => .ok (.course code (some l))
        | none => .error (.tree (.minimumNotLetter code (gradeKey minimum)))

end Requirement
end DegreePlan
