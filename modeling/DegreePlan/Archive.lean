import DegreePlan.Course.Gpa
import DegreePlan.Term

/-!
# The archive

The archive stores semesters, apart for every user. A stored semester keeps the submitted courses as
they are, but its totals are computed from them and never taken from the submission. Every access
names its user, and no access reaches the semesters of another.
-/

namespace DegreePlan

/-- The fields of a submitted course. -/
abbrev CourseRecord := List (String × Json)

namespace CourseRecord

/-- The id of the course. -/
def id (c : CourseRecord) : Json := Json.fieldOf c "id"

/-- The credits of the course. -/
def credits (c : CourseRecord) : Except Fault Int :=
  ((Json.fieldOf c "credits").orElse (.int 0)).toInteger

/-- The course is completed. -/
def isCompleted (c : CourseRecord) : Bool := (Json.fieldOf c "status").text? == some "completed"

/-- The letter of the course, if its grade has points. -/
def letter? (c : CourseRecord) : Option Letter := Letter.of? (Json.fieldOf c "grade")

/-- The sum of the credits. -/
def total (courses : List CourseRecord) : Except Fault Int := do
  return (← courses.mapM credits).foldl (· + ·) 0

/-- The letters and credits of the completed courses. -/
def graded (courses : List CourseRecord) : Except Fault (List (Option Letter × Int)) :=
  (courses.filter isCompleted).mapM fun c => do return (letter? c, ← credits c)

/-- The average of the completed courses. -/
def average (courses : List CourseRecord) : Except Fault Float := do
  gradePointAverage (← graded courses)

end CourseRecord

/-- A stored semester. -/
structure Row where
  id : Int
  term : TermName
  courses : List CourseRecord
  total : Int
  gpa : Float
  maxCredits : Int
  isActive : Bool

namespace Row

/-- The row as a record. -/
def toJson (r : Row) : Json :=
  .obj [("id", .int r.id), ("year", .int r.term.year), ("season", .str r.term.season),
    ("courses", .arr (r.courses.map .obj)), ("total_credits", .int r.total), ("gpa", .real r.gpa),
    ("max_credits", .int r.maxCredits), ("is_active", .bool r.isActive)]

/-- The semester id of a submission. -/
def readId (fields : List (String × Json)) : Except Fault Int :=
  let id := (fields.lookup "id").getD (Json.fieldOf fields "semester_id")
  match id.toInteger with
  | .ok n => .ok n
  | .error f =>
    if f.family == .wrongKind || f.family == .unacceptable then .error (.payload .noId)
    else .error f

/-- Null and the empty text name no year. -/
def namesYear : Json → Bool
  | .null => false
  | .str s => !s.isEmpty
  | _ => true

/-- A submitted course, which must have an id and a code. -/
def readCourse (v : Json) : Except Fault CourseRecord :=
  match v.fields? with
  | some fields =>
    if (fields.lookup "id").isSome && (fields.lookup "code").isSome then .ok fields
    else .error (.payload .courseIncomplete)
  | none => .error (.payload .courseIncomplete)

/-- The submitted courses. -/
def readCourses (courses : Json) : Except Fault (List CourseRecord) :=
  if courses.isBlank then .ok []
  else match courses with
    | .arr items => items.mapM readCourse
    | _ => .error (.payload .coursesNotAList)

/-- The row of a submitted semester. -/
def ofJson (payload : Json) : Except Fault Row := do
  match payload.fields? with
  | none => throw (.payload .notAnObject)
  | some fields =>
    let field := Json.fieldOf fields
    let id ← readId fields
    if (field "season").isBlank || !namesYear (field "year") then throw (.payload .noTerm)
    let courses ← readCourses (field "courses")
    let graded ← CourseRecord.graded courses
    let term := { season := (field "season").asText, year := ← (field "year").toInteger }
    let total ← CourseRecord.total courses
    let gpa ← gradePointAverage graded
    let maxCredits ← ((field "max_credits").orElse (.int 18)).toInteger
    return { id, term, courses, total, gpa, maxCredits, isActive := !(field "is_active").isBlank }

/-- The courses whose ids are not among `ids`. -/
def keep (ids : List Json) (courses : List CourseRecord) : Except Fault (List CourseRecord) :=
  courses.filterMapM fun c => do
    c.id.checkKey
    return if c.id.isIn ids then none else some c

/-- Drops courses by id and computes the totals anew: the number of dropped courses and the row.
    After a fault the row is as far as the computation came. -/
def dropCourses (ids : List Json) (r : Row) : Row × Except Fault Nat :=
  match keep ids r.courses with
  | .error f => (r, .error f)
  | .ok courses =>
    let kept := { r with courses }
    match CourseRecord.total courses with
    | .error f => (kept, .error f)
    | .ok total =>
      match CourseRecord.average courses with
      | .error f => ({ kept with total }, .error f)
      | .ok gpa => ({ kept with total, gpa }, .ok (r.courses.length - courses.length))

end Row

/-- The stored semesters of all users. Every user and, for one user, every semester id is listed at
    most once. -/
structure Archive where
  users : List (String × List Row) := []

namespace Archive

/-- The rows of a user in the order in which they were first stored. -/
def rows (a : Archive) (user : String) : List Row := (a.users.lookup user).getD []

/-- The rows of a user sorted by semester id. -/
def sorted (a : Archive) (user : String) : List Row :=
  (a.rows user).mergeSort fun r s => decide (r.id ≤ s.id)

/-- Gives a user other rows. -/
def setRows (user : String) (rows : List Row) :
    List (String × List Row) → List (String × List Row)
  | [] => [(user, rows)]
  | (u, rs) :: rest => if u == user then (u, rows) :: rest else (u, rs) :: setRows user rows rest

/-- Puts a row in the place of the one with its id, or at the end. -/
def putRow (r : Row) : List Row → List Row
  | [] => [r]
  | s :: rest => if s.id == r.id then r :: rest else s :: putRow r rest

/-- Stores a submitted semester of a user. -/
def save (a : Archive) (user : String) (payload : Json) : Except Fault (Row × Archive) := do
  if user.isEmpty then throw (.access .noUser)
  let r ← Row.ofJson payload
  return (r, { users := setRows user (putRow r (a.rows user)) a.users })

/-- Drops courses from rows one after the other; the rows behind a fault stay as they are. -/
def dropFrom (ids : List Json) : List Row → List Row × Except Fault Nat
  | [] => ([], .ok 0)
  | r :: rs =>
    match r.dropCourses ids with
    | (r, .error f) => (r :: rs, .error f)
    | (r, .ok n) =>
      let (rs, rest) := dropFrom ids rs
      (r :: rs, rest.map (n + ·))

/-- The ids of a request to delete; null is none. -/
def readIds (ids : Json) : Except Fault (List Json) := do
  let ids ← if ids.isBlank then pure [] else ids.parts
  ids.forM Json.checkKey
  return ids

/-- Deletes courses of a user by id: the number of deleted courses. -/
def delete (a : Archive) (user : String) (ids : Json) : Archive × Except Fault Nat :=
  if user.isEmpty then (a, .error (.access .noUser))
  else match readIds ids with
    | .error f => (a, .error f)
    | .ok ids =>
      if (a.users.lookup user).isNone then (a, .ok 0)
      else
        let (rows, result) := dropFrom ids (a.rows user)
        ({ users := setRows user rows a.users }, result)

/-- Forgets a user. -/
def forget (a : Archive) (user : String) : Archive :=
  { users := a.users.filter (·.1 != user) }

/-- The rows of a user as an object from semester id to row. -/
def document (a : Archive) (user : String) : Json :=
  .obj ((a.rows user).map fun r => (toString r.id, r.toJson))

end Archive
end DegreePlan
