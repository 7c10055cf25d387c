import DegreePlan.Requirement.Basic

/-!
# Evaluating requirements

A requirement is judged against the courses that a student has completed and plans to take. A leaf
is met by a completed course, unless its recorded grade is below the minimum. A course that is only
planned meets it softly: it does not block, and the verdict names it.
-/

namespace DegreePlan

/-- A recorded grade as far as minimum grades are concerned. -/
inductive Mark where
  | letter (letter : Letter)
  | unpointed
deriving DecidableEq, Inhabited

namespace Mark

/-- The mark of a value, none for null. -/
def of? : Json → Option Mark
  | .null => none
  | raw => some ((Letter.of? raw).elim unpointed letter)

/-- The mark of a grade. -/
def ofGrade : Grade → Mark
  | .letter l => letter l
  | .administrative _ => unpointed

/-- The mark reaches a minimum grade. -/
def meets (mark : Mark) (minimum : Letter) : Bool :=
  match mark with
  | letter l => l.meets minimum
  | unpointed => false

end Mark

/-- Completed courses: their codes alone, or with the recorded grades. Without grades no minimum
    is checked, and a completed course without a recorded grade meets every minimum. -/
inductive Completed where
  | ungraded (codes : List String)
  | graded (marks : List (String × Option Mark))

namespace Completed

/-- The codes of the completed courses. -/
def codes : Completed → List String
  | ungraded codes => codes
  | graded marks => marks.map (·.1)

/-- The course is completed, with a grade that reaches the minimum. -/
def meets (completed : Completed) (code : String) (minimum : Option Letter) : Bool :=
  match completed with
  | ungraded codes => codes.contains code
  | graded marks =>
    match marks.lookup code with
    | none => false
    | some none => true
    | some (some mark) => minimum.all mark.meets

end Completed

/-- What evaluation finds. -/
structure Verdict where
  /-- Every leaf that counts is met by a completed course. -/
  satisfied : Bool
  /-- The courses that are still needed. -/
  missing : List String := []
  /-- The planned courses that the verdict leans on. -/
  softVia : List String := []
deriving DecidableEq, Inhabited

namespace Verdict

/-- Courses are missing. -/
def isBlocked (v : Verdict) : Bool := !v.missing.isEmpty

/-- Nothing is missing once the planned courses are taken, and there are such. -/
def isPending (v : Verdict) : Bool := v.missing.isEmpty && !v.softVia.isEmpty

/-- Nothing is missing. -/
def isOpen (v : Verdict) : Bool := v.missing.isEmpty

/-- The first of the verdicts with the fewest missing courses. -/
def fewestMissing (v : Verdict) : List Verdict → Verdict
  | [] => v
  | w :: ws =>
    if w.missing.length < v.missing.length then w.fewestMissing ws else v.fewestMissing ws

/-- All parts count: what is missing anywhere is missing. -/
def all (parts : List Verdict) : Verdict where
  satisfied := parts.all (·.satisfied)
  missing := Course.distinct (parts.flatMap (·.missing))
  softVia := Course.distinct (parts.flatMap (·.softVia))

/-- The best part counts: the first that is satisfied, else the first with nothing missing, else
    the first with the fewest missing courses. -/
def any (parts : List Verdict) : Verdict :=
  if parts.any (·.satisfied) then { satisfied := true }
  else match parts.find? (·.isOpen), parts with
    | some v, _ => { satisfied := false, softVia := v.softVia }
    | none, v :: vs =>
      let best := v.fewestMissing vs
      { satisfied := false, missing := best.missing, softVia := best.softVia }
    | none, [] => { satisfied := false }

/-- As a value. -/
def toJson (v : Verdict) : List (String × Json) :=
  [("satisfied", .bool v.satisfied),
   ("missing", .arr (v.missing.map .str)),
   ("soft_satisfied_via", .arr (v.softVia.map .str)),
   ("blocked", .bool v.isBlocked),
   ("pending", .bool v.isPending)]

end Verdict

namespace Requirement

/-- Judges one course. -/
def evaluateCourse (code : String) (minimum : Option Letter) (completed : Completed)
    (planned : List String) : Verdict :=
  if completed.meets code minimum then { satisfied := true }
  else if planned.contains code then { satisfied := false, softVia := [code] }
  else { satisfied := false, missing := [code] }

mutual

/-- Judges a requirement. -/
def evaluate (completed : Completed) (planned : List String) : Requirement → Verdict
  | course code minimum => evaluateCourse code minimum completed planned
  | all parts => Verdict.all (evaluateEach completed planned parts)
  | any parts => Verdict.any (evaluateEach completed planned parts)

/-- Judges several requirements. -/
def evaluateEach (completed : Completed) (planned : List String) : List Requirement → List Verdict
  | [] => []
  | r :: rs => evaluate completed planned r :: evaluateEach completed planned rs

end

/-- Judges a requirement that may be absent; no requirement is always satisfied. -/
def judge (tree : Option Requirement) (completed : Completed) (planned : List String) : Verdict :=
  match tree with
  | none => { satisfied := true }
  | some r => r.evaluate completed planned

/-! ## In words -/

/-- One course with a tick if it is completed or planned and a cross otherwise. -/
def describeCourse (code : String) (minimum : Option Letter) (completed : Completed)
    (planned : List String) : String :=
  let label := code ++ minimum.elim "" fun l => s!" [min {l.text}]"
  if completed.meets code minimum then label ++ " ✓"
  else if planned.contains code then label ++ " (planned) ✓"
  else label ++ " ✗"

/-- Puts a group between parentheses unless it is the whole text. -/
def bracket (top : Bool) (s : String) : String := if top then s else "(" ++ s ++ ")"

mutual

/-- The requirement with a mark for every course. -/
def describe (completed : Completed) (planned : List String) (top : Bool) : Requirement → String
  | course code minimum => describeCourse code minimum completed planned
  | all parts => bracket top ("; ".intercalate (describeEach completed planned parts))
  | any parts => bracket top (" or ".intercalate (describeEach completed planned parts))

/-- The parts of a group. -/
def describeEach (completed : Completed) (planned : List String) : List Requirement → List String
  | [] => []
  | r :: rs => describe completed planned false r :: describeEach completed planned rs

end

/-- Which prerequisites are met and how, in one line. -/
def checkText (tree : Option Requirement) (completed : Completed) (planned : List String) :
    String :=
  match tree with
  | none => "No prerequisites"
  | some r => r.describe completed planned true

end Requirement
end DegreePlan
