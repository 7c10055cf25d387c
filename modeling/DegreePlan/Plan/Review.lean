import DegreePlan.Plan.Basic
import DegreePlan.Requirement.Evaluation

/-!
# Reviewing a plan

Questions about a whole plan: what it completes and plans, whether it meets a requirement, how far
it is, and what speaks against a semester. Nothing here changes the plan.
-/

namespace DegreePlan.Plan

/-- Records a grade for a code: a code that is there keeps its place and takes the new grade. -/
def recordGrade (code : Json) (grade : Option Grade) :
    List (Json × Option Grade) → List (Json × Option Grade)
  | [] => [(code, grade)]
  | (c, g) :: rest =>
    if c.same code then (c, grade) :: rest else (c, g) :: recordGrade code grade rest

/-- The completed courses with their grades, each code once. -/
def completedGrades (p : Plan) : Except Fault (List (Json × Option Grade)) := do
  let entries ← p.withStatus .completed
  entries.forM fun e => e.code.checkKey
  return entries.foldl (fun grades e => recordGrade e.code e.grade grades) []

/-- The codes of courses that are planned or in progress, each once. -/
def plannedCodes (p : Plan) : Except Fault (List Json) := do
  let codes := ((← p.courses).filter (·.status != .completed)).map (·.code)
  codes.forM Json.checkKey
  return Json.distinct codes

/-- The completed courses as evaluation takes them. -/
def completed (p : Plan) : Except Fault Completed := do
  return .graded ((← p.completedGrades).filterMap fun (code, grade) =>
    code.text?.map fun s => (s, grade.map Mark.ofGrade))

/-- The planned courses as evaluation takes them. -/
def planned (p : Plan) : Except Fault (List String) := do
  return (← p.plannedCodes).filterMap Json.text?

/-- Judges a requirement against the plan. -/
def judge (p : Plan) (tree : Option Requirement) : Except Fault Verdict := do
  return Requirement.judge tree (← p.completed) (← p.planned)

/-- How many courses have which status. -/
structure Stats where
  total : Nat
  completed : Nat
  inProgress : Nat
  planned : Nat

/-- The completed part of all courses in percent. -/
def Stats.completionRate (s : Stats) : Float :=
  if s.total == 0 then 0.0 else Float.ofNat s.completed / Float.ofNat s.total * 100.0

/-- Counts the courses. -/
def stats (p : Plan) : Except Fault Stats := do
  let courses ← p.courses
  let count (status : Status) := courses.countP (·.status == status)
  return { total := courses.length, completed := count .completed
           inProgress := count .inProgress, planned := count .planned }

/-- What a review of a semester finds. -/
structure Review where
  warnings : List String := []
  errors : List String := []

/-- Nothing is wrong; warnings do not count. -/
def Review.isValid (r : Review) : Bool := r.errors.isEmpty

/-- What is to be said about the prerequisites of one course. -/
def prerequisiteWarning (code : String) (v : Verdict) : Option String :=
  if v.isBlocked then
    some (code ++ " is missing prerequisites: " ++ ", ".intercalate v.missing)
  else if v.isPending then
    some (code ++ " relies on planned prerequisites: " ++ ", ".intercalate v.softVia)
  else none

/-- Warnings about the prerequisites of a semester's courses. -/
def prerequisiteWarnings (p : Plan) (s : Semester)
    (prerequisites : List (String × Option Requirement)) : Except Fault (List String) := do
  let completed ← p.completed
  let planned ← p.planned
  return s.courses.filterMap fun e =>
    let tree := (e.code.text?.bind fun code => prerequisites.lookup code).join
    prerequisiteWarning e.code.asText (Requirement.judge tree completed planned)

/-- Reviews one semester: its credits, and the prerequisites of its courses where they are
    given. -/
def review (p : Plan) (id : Json) (prerequisites : List (String × Option Requirement)) :
    Except Fault Review := do
  match ← p.lookup id with
  | none => return { errors := ["Semester not found"] }
  | some s =>
    let total := s.total
    let errors :=
      if ← s.maxCredits.less (.int total) then
        [s!"Semester exceeds maximum credits ({total}/{s.maxCredits.asText})"]
      else []
    let light :=
      if total < Load.lightBelow && !s.courses.isEmpty then
        [s!"Semester has fewer than {Load.lightBelow} credits ({total})"]
      else []
    let gaps ← if prerequisites.isEmpty then pure [] else p.prerequisiteWarnings s prerequisites
    return { warnings := light ++ gaps, errors }

end DegreePlan.Plan
