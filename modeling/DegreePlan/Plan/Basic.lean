import DegreePlan.Plan.Semester

/-!
# Plans

A student's plan: semesters in the order in which they were added, each id once. Every change takes
the whole plan to a new plan or refuses and leaves it as it was, and every change that was made
raises the version by one.
-/

namespace DegreePlan

/-- A student's semesters. -/
structure Plan where
  owner : Option String
  semesters : List Semester := []
  version : Nat := 0

/-- The semesters of a plan at one moment, by time. -/
structure Snapshot where
  owner : Option String
  version : Nat
  semesters : List Semester

namespace Snapshot

/-- Every course id once. -/
def courseIds (s : Snapshot) : Except Fault (List Json) := do
  let ids := s.semesters.flatMap fun t => t.courses.map (·.id)
  ids.forM Json.checkKey
  return Json.distinct ids

/-- Both hold the same semesters. -/
def sameSemesters (a b : Snapshot) : Bool :=
  a.semesters.length == b.semesters.length &&
    (a.semesters.zip b.semesters).all fun (x, y) => x.same y

end Snapshot

namespace Plan

/-! ## Reading -/

/-- The semester with this id, if there is one. -/
def semester? (p : Plan) (id : Json) : Option Semester :=
  p.semesters.find? fun s => id.same (.int s.id)

/-- The semester with an id of any kind that can be looked up. -/
def lookup (p : Plan) (id : Json) : Except Fault (Option Semester) := do
  id.checkKey
  return p.semester? id

/-- The semester with this id, which must be there. -/
def semester (p : Plan) (id : Json) : Except Fault Semester := do
  match ← p.lookup id with
  | some s => return s
  | none => throw (.plan (.unknownSemester id))

/-- The semesters by time. -/
def ordered (p : Plan) : Except Fault (List Semester) := do
  let dated ← p.semesters.mapM fun s => do return (← s.term.term, s)
  return (dated.mergeSort fun a b => !b.1.before a.1).map (·.2)

/-- All courses, by time. -/
def courses (p : Plan) : Except Fault (List Entry) := do
  return (← p.ordered).flatMap (·.courses)

/-- The courses with a status, by time. -/
def withStatus (p : Plan) (status : Status) : Except Fault (List Entry) := do
  return (← p.courses).filter (·.status == status)

/-- The first course with this id. -/
def find? (p : Plan) (id : Json) : Option Entry :=
  (p.semesters.flatMap (·.courses)).find? fun e => e.id.equals id

/-- The first course with this code. -/
def findCode? (p : Plan) (code : Json) : Option Entry :=
  (p.semesters.flatMap (·.courses)).find? fun e => e.code.same code

/-- The average of all completed courses. -/
def average (p : Plan) : Except Fault Float := do averageOf (← p.courses)

/-! ## Changing -/

/-- Counts a change. -/
def touch (p : Plan) : Plan := { p with version := p.version + 1 }

/-- Gives the semester with this id other courses. -/
def setCourses (p : Plan) (id : Int) (courses : List Entry) : Plan :=
  { p with semesters := p.semesters.map fun s => if s.id == id then { s with courses } else s }

/-- Puts a semester in the place of the one with its id, or at the end. -/
def putSemester (s : Semester) : List Semester → List Semester
  | [] => [s]
  | t :: rest => if t.id == s.id then s :: rest else t :: putSemester s rest

/-- Adds the semester of a term; a semester that is there already stays as it is. -/
def addSemester (p : Plan) (season year : Json) (maxCredits : Json := .int 18) :
    Except Fault (Semester × Plan) := do
  let id ← Term.idOf season year
  match p.semester? (.int id) with
  | some s => return (s, p)
  | none =>
    let term : TermName := { season := season.asText, year := ← year.toInteger }
    let s : Semester := { id, term, maxCredits }
    return (s, { p with semesters := p.semesters ++ [s] }.touch)

/-- Fills an empty plan with the terms from the start to graduation; a plan with semesters stays as
    it is. Gives the semesters by time. -/
def generate (p : Plan) (start graduation : Json) (current : Json := .null) :
    Except Fault (List Semester × Plan) := do
  if !p.semesters.isEmpty then return (← p.ordered, p)
  let terms ← Term.range start graduation
  let semesters := terms.map fun t =>
    { Semester.ofTerm t with isActive := current.same (.arr [.str t.season.text, .int t.year]) }
  let p := { p with semesters }.touch
  return (← p.ordered, p)

/-- Adds a course. No code and no id may stand twice in the plan. -/
def addCourse (p : Plan) (e : Entry) : Except Fault Plan := do
  let s ← p.semester e.semester
  if s.courses.any fun c => c.code.same e.code then
    throw (.plan (.inSemester e.code.asText s.label))
  if let some other := p.findCode? e.code then
    match ← p.lookup other.semester with
    | some t => throw (.plan (.inOtherSemester e.code.asText t.label))
    | none => throw (.value (.missing other.semester.shown))
  if (p.find? e.id).isSome then throw (.plan (.idInUse e.id))
  return (p.setCourses s.id (s.courses ++ [e])).touch

/-- Removes a course; gives the removed course, or none if there was nothing to remove. -/
def removeCourse (p : Plan) (semester id : Json) : Except Fault (Option Entry × Plan) := do
  match ← p.lookup semester with
  | none => return (none, p)
  | some s =>
    match s.find? id with
    | none => return (none, p)
    | some e => return (some e, (p.setCourses s.id (s.without id)).touch)

/-- The course with this id in a semester that must hold it. -/
def courseIn (s : Semester) (id : Json) : Except Fault Entry :=
  match s.find? id with
  | some e => .ok e
  | none => .error (.plan (.courseNotFound id s.label))

/-- Moves a course to the end of another semester. -/
def moveCourse (p : Plan) (id source target : Json) : Except Fault (Entry × Plan) := do
  let s ← p.semester source
  let t ← p.semester target
  let e ← courseIn s id
  if source.same target then return (e, p)
  let moved := { e with semester := target }
  return (moved, ((p.setCourses s.id (s.without id)).setCourses t.id (t.courses ++ [moved])).touch)

/-- Replaces a course by a changed one. -/
def changeCourse (p : Plan) (semester id : Json) (change : Entry → Except Fault Entry) :
    Except Fault (Entry × Plan) := do
  let s ← p.semester semester
  let e ← change (← courseIn s id)
  let courses := s.courses.map fun c => if c.id.equals id then e else c
  return (e, (p.setCourses s.id courses).touch)

/-- Changes the status of a course, and its grade if one is given. -/
def setStatus (p : Plan) (semester id status : Json) (grade : Json := .null) :
    Except Fault (Entry × Plan) :=
  p.changeCourse semester id fun e => do
    let status ← Status.read status
    match grade with
    | .null => return { e with status }
    | _ => return { e with status, grade := ← Grade.read grade }

/-- Changes the grade of a course. -/
def setGrade (p : Plan) (semester id grade : Json) : Except Fault (Entry × Plan) :=
  p.changeCourse semester id fun e => do return { e with grade := ← Grade.read grade }

/-- Drops every planned course; completed courses and courses in progress stay. Gives the dropped
    courses by time. -/
def clearPlanned (p : Plan) : Except Fault (List Entry × Plan) := do
  let removed ← p.withStatus .planned
  if removed.isEmpty then return ([], p)
  let semesters := p.semesters.map fun s =>
    { s with courses := s.courses.filter (·.status != .planned) }
  return (removed, { p with semesters }.touch)

/-- Drops everything. -/
def clear (p : Plan) : Plan := { p with semesters := [] }.touch

/-! ## Snapshots -/

/-- The semesters as they are now. -/
def snapshot (p : Plan) : Except Fault Snapshot := do
  return { owner := p.owner, version := p.version, semesters := ← p.ordered }

/-- Goes back to a snapshot of the same owner. -/
def restore (p : Plan) (s : Snapshot) : Except Fault Plan :=
  if s.owner != p.owner then .error (.record .otherUser)
  else .ok { p with semesters := s.semesters }.touch

end Plan
end DegreePlan
