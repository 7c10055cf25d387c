import DegreePlan.Requirement.Recommendation

/-!
# Input of requests

Requests give courses as a list or as a text, completed courses also as an object with grades. No
input may hold more courses than the service allows.
-/

namespace DegreePlan.Input

/-- The courses of a field, each once; what is no course code is dropped. -/
def readCodes (limit : Int) (field : String) (raw : Json) : Except Fault (List String) :=
  let read : Except Fault (List String) := do
    let codes ← Course.codeList raw
    if limit < codes.length then throw (.request (.tooManyCodes field))
    return codes
  match raw with
  | .null | .str _ | .arr _ => read
  | _ => .error (.request (.notCodes field))

/-- The mark of a recorded grade, which the grade scale must know. -/
def readMark (grade : Json) : Except Fault (Option Mark) := do
  return (← Grade.read grade).map Mark.ofGrade

/-- Records a mark; a later mark of a course replaces an earlier one. -/
def record (code : String) (mark : Option Mark) :
    List (String × Option Mark) → List (String × Option Mark)
  | [] => [(code, mark)]
  | (c, m) :: rest => if c == code then (c, mark) :: rest else (c, m) :: record code mark rest

/-- Completed courses with their grades. Every name must be a course code. -/
def readMarks (fields : List (String × Json)) : Except Fault (List (String × Option Mark)) :=
  fields.foldlM (fun marks (name, grade) => do
    match Course.code? (.str name) with
    | none => throw (.request (.notACode name))
    | some code => return record code (← readMark grade) marks) []

/-- Completed courses: an object holds their grades, anything else only their codes. -/
def readCompleted (limit : Int) (raw : Json) : Except Fault Completed :=
  match raw with
  | .obj fields =>
    if limit < fields.length then .error (.request .tooManyCompleted)
    else do return .graded (← readMarks fields)
  | _ => do return .ungraded (← readCodes limit "completed_courses" raw)

/-- Completed and planned courses. -/
def readProgress (limit : Int) (fields : List (String × Json)) : Except Fault Progress := do
  let completed ← readCompleted limit (Json.fieldOf fields "completed_courses")
  let planned ← readCodes limit "planned_courses" (Json.fieldOf fields "planned_courses")
  return { completed, planned }

/-- The courses of a program; null is no program. -/
def readProgram (limit : Int) (raw : Json) : Except Fault (Option (List Json)) :=
  match raw with
  | .null => .ok none
  | _ => do return some ((← readCodes limit "program_courses" raw).map .str)

/-- The ids of courses to delete: texts and whole numbers. -/
def readIds? (items : List Json) : Option (List Json) :=
  if items.all fun id => match id with
    | .str _ | .int _ => true
    | _ => false
  then some items else none

end DegreePlan.Input
