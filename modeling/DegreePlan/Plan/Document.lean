import DegreePlan.Json.Parser
import DegreePlan.Json.Printer
import DegreePlan.Plan.Basic

/-!
# Plans as documents

A plan is stored and exported as an object of semesters. Reading checks everything before the plan
is replaced: a document that is refused leaves the plan as it was.
-/

namespace DegreePlan.Plan

/-- The semesters as an object from id to record, by time. -/
def toJson (p : Plan) : Except Fault Json := do
  return .obj (← (← p.ordered).mapM fun s => do return (toString s.id, ← s.toJson))

/-- The semesters as the cache gets them. Each is filed under the text of its id, and there is none
    of an id that is too long to be written. -/
def filed (p : Plan) : Except Fault Json := do
  return .obj (← (← p.ordered).mapM fun s => do
    if !(Json.int s.id).isWritable then throw (.value .integerTooLongToWrite)
    return (toString s.id, ← s.toJson))

/-- The records in a document: the values of an object, or the parts of another value. -/
def recordsOf : Json → Except Fault (List Json)
  | .obj fields => .ok (fields.map (·.2))
  | v => v.parts

/-- What was seen while semesters are read. -/
structure Reading where
  semesters : List Semester := []
  codes : List Json := []
  ids : List Json := []

namespace Reading

/-- Notes a course, which must be new by code and by id. -/
def noteCourse (r : Reading) (e : Entry) : Except Fault Reading := do
  let repeated := Fault.record (.repeatedCourse e.code.asText)
  if e.code.isIn r.codes then throw repeated
  e.id.checkKey
  if e.id.isIn r.ids then throw repeated
  return { r with codes := r.codes ++ [e.code], ids := r.ids ++ [e.id] }

/-- Reads one record. -/
def add (r : Reading) (data : Json) : Except Fault Reading := do
  let s ← Semester.ofJson data
  let r ← s.courses.foldlM noteCourse r
  return { r with semesters := putSemester s r.semesters }

end Reading

/-- Replaces the plan by the semesters of a document. -/
def load (p : Plan) (document : Json) : Except Fault Plan := do
  let r ← (← recordsOf document).foldlM Reading.add {}
  return { p with semesters := r.semesters }.touch

/-- The version of exported documents. -/
def exportVersion : String := "1.0"

/-- The plan as an exported document. -/
def exportAt (p : Plan) (time : String) : Except Fault Json := do
  return .obj [("semesters", ← p.toJson), ("exported_at", .str time),
    ("version", .str exportVersion)]

/-- The document in an exported text. -/
def readExport (data : Json) : Except Fault Json :=
  match data with
  | .str s =>
    match Json.parse? s with
    | some v => .ok v
    | none => .error (.value .notJson)
  | v => .error (.value (.notANumber v.kindName))

/-- The semesters in an exported document. -/
def semestersOf? (document : Json) : Option Json := document.fields?.bind (·.lookup "semesters")

/-- Warns of a document that could not be imported. -/
def importWarning (f : Fault) : String := s!"[WARN] Failed to import planning data: {f.message}"

/-- Imports an exported text: whether it was accepted, the warnings and the plan. -/
def importText (p : Plan) (data : Json) : Except Fault (Bool × List String × Plan) :=
  match readExport data with
  | .error f => .ok (false, [importWarning f], p)
  | .ok document =>
    match semestersOf? document with
    | none => .ok (false, ["[WARN] Invalid import data: missing semesters"], p)
    | some semesters =>
      match p.load semesters with
      | .ok q => .ok (true, [], q)
      | .error f => if f.isDataFault then .ok (false, [importWarning f], p) else .error f

end DegreePlan.Plan
