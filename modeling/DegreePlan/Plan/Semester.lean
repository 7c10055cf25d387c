import DegreePlan.Plan.Entry
import DegreePlan.Term

/-!
# Semesters

A semester of a plan with its courses. Credits, average and load are computed from the courses
whenever they are asked for, so they cannot drift from them.
-/

namespace DegreePlan

/-- One semester of a plan. The name of its term is kept apart from its id, because stored
    semesters bring both. -/
structure Semester where
  id : Int
  term : TermName
  courses : List Entry := []
  maxCredits : Json := .int 18
  isActive : Bool := false

namespace Semester

/-- Season and year. -/
def label (s : Semester) : String := s.term.label

/-- The sum of the credits. -/
def total (s : Semester) : Nat := totalCredits s.courses

/-- The average of the completed courses. -/
def average (s : Semester) : Except Fault Float := averageOf s.courses

/-- How heavy the semester is. -/
def load (s : Semester) : Load := Load.ofCredits s.total

/-- The first course with this id. -/
def find? (s : Semester) (id : Json) : Option Entry := s.courses.find? fun e => e.id.equals id

/-- The courses without those of this id. -/
def without (s : Semester) (id : Json) : List Entry := s.courses.filter fun e => !e.id.equals id

/-- The empty semester of a term. -/
def ofTerm (t : Term) : Semester := { id := t.id, term := .ofTerm t }

/-- The semester as a record, with what is computed from its courses. -/
def toJson (s : Semester) : Except Fault Json := do
  return .obj [("id", .int s.id), ("year", .int s.term.year), ("season", .str s.term.season),
    ("courses", .arr (s.courses.map Entry.toJson)), ("total_credits", .int s.total),
    ("gpa", .real (← s.average)), ("credit_load", .str s.load.text),
    ("max_credits", s.maxCredits), ("is_active", .bool s.isActive)]

/-- The first course that claims another semester. -/
def strayIn (id : Int) (courses : List Entry) : Option Entry :=
  courses.find? fun e => !e.semester.same (.int id)

/-- A semester from a record. Totals in the record are not looked at. -/
def ofJson (data : Json) : Except Fault Semester := do
  let fields ← data.record
  let field := Json.fieldOf fields
  let id ← (← Json.need fields "id").toInteger
  let term ← Term.ofId (.int id)
  let courses := field "courses"
  let courses ← if courses.isBlank then pure [] else courses.parts
  let courses ← courses.mapM Entry.ofJson
  if let some stray := strayIn id courses then
    throw (.record (.wrongSemester stray.code.asText (← stray.semester.toInteger) id))
  let year ← ((fields.lookup "year").getD (.int term.year)).toInteger
  let season := ((fields.lookup "season").getD (.str term.season.text)).asText
  let maxCredits ← ((field "max_credits").orElse (.int 18)).toInteger
  return { id, term := { season, year }, courses, maxCredits := .int maxCredits
           isActive := !(field "is_active").isBlank }

/-- All fields are the same, course by course. -/
def same (a b : Semester) : Bool :=
  a.id == b.id && a.term == b.term && a.courses.length == b.courses.length &&
    (a.courses.zip b.courses).all (fun (x, y) => x.same y) && a.maxCredits.same b.maxCredits &&
    a.isActive == b.isActive

end Semester
end DegreePlan
