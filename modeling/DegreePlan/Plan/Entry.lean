import DegreePlan.Course.Gpa

/-!
# Planned courses

A course in a plan, with its credits, its status, perhaps a grade, and the id of the semester that
holds it. Ids, codes and titles are kept as they were given. A course that is read from a record is
first brought into shape: code, title and status become texts, credits and semester id integers.
-/

namespace DegreePlan

/-- How far a student is with a course. -/
inductive Status where
  | completed
  | inProgress
  | planned
deriving DecidableEq, Inhabited

namespace Status

/-- The status as text. -/
def text : Status → String
  | completed => "completed"
  | inProgress => "in-progress"
  | planned => "planned"

/-- The status that is exactly this text. -/
def ofText? : String → Option Status
  | "completed" => some completed
  | "in-progress" => some inProgress
  | "planned" => some planned
  | _ => none

/-- Reads a status. -/
def read (raw : Json) : Except Fault Status :=
  match raw.text?.bind ofText? with
  | some s => .ok s
  | none => .error (.record (.status raw))

end Status

/-- A course in a plan. -/
structure Entry where
  id : Json
  code : Json
  title : Json
  credits : Nat
  status : Status
  semester : Json
  grade : Option Grade

namespace Entry

/-- Reads credits: a whole number that is not negative. -/
def readCredits : Json → Except Fault Nat
  | .int n => if 0 ≤ n then .ok n.toNat else .error (.record (.credits (.int n)))
  | raw => .error (.record (.credits raw))

/-- An entry from values of any kind. -/
def make (id code title credits status semester grade : Json) : Except Fault Entry := do
  return { id, code, title, credits := ← readCredits credits, status := ← Status.read status
           semester, grade := ← Grade.read grade }

/-- An entry from a record. -/
def ofJson (data : Json) : Except Fault Entry := do
  let fields ← data.record
  let field := Json.fieldOf fields
  let id ← Json.need fields "id"
  let code ← Json.need fields "code"
  let credits ← ((field "credits").orElse (.int 0)).toInteger
  let semester ← ((fields.lookup "semester_id").getD (field "semesterId")).toInteger
  make id (.str code.asText) (.str ((field "title").orElse (.str "")).asText) (.int credits)
    (.str ((field "status").orElse (.str "planned")).asText) (.int semester) (field "grade")

/-- The entry as a record. -/
def toJson (e : Entry) : Json :=
  .obj [("id", e.id), ("code", e.code), ("title", e.title), ("credits", .int e.credits),
    ("status", .str e.status.text), ("grade", Grade.toJson e.grade), ("semester_id", e.semester)]

/-- All fields are the same. -/
def same (a b : Entry) : Bool :=
  a.id.same b.id && a.code.same b.code && a.title.same b.title && a.credits == b.credits &&
    a.status == b.status && a.semester.same b.semester && a.grade == b.grade

end Entry

/-- The sum of credits. -/
def totalCredits (entries : List Entry) : Nat := entries.foldl (· + ·.credits) 0

/-- The average of the completed courses. -/
def averageOf (entries : List Entry) : Except Fault Float :=
  gradePointAverage ((entries.filter (·.status == .completed)).map fun e =>
    (e.grade.bind Grade.letter?, (e.credits : Int)))

/-! ## Credit load -/

/-- How heavy a semester is. -/
inductive Load where
  | light
  | normal
  | overloaded
deriving DecidableEq, Inhabited

namespace Load

/-- More credits than these overload a semester. -/
def overloadAbove : Nat := 18

/-- Fewer credits than these are a light semester. -/
def lightBelow : Nat := 12

/-- The load of a number of credits. -/
def ofCredits (total : Nat) : Load :=
  if overloadAbove < total then overloaded
  else if total < lightBelow then light
  else normal

/-- The load of credits of any kind. -/
def read (total : Json) : Except Fault Load := do
  if ← Json.less (.int overloadAbove) total then return overloaded
  if ← total.less (.int lightBelow) then return light
  return normal

/-- The load as text. -/
def text : Load → String
  | light => "light"
  | normal => "normal"
  | overloaded => "overloaded"

end Load
end DegreePlan
