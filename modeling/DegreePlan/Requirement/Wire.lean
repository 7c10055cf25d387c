import DegreePlan.Requirement.Basic

/-!
# Requirement trees as values

The catalog and the requests hold a requirement tree as a value: a course is an object with an id
and perhaps a grade, or just a code; a group is a list that opens with `and` or `or`; an object with
courses is a group whose connective stands in its type. Null and the empty list are no requirement.
-/

namespace DegreePlan.Requirement

/-- The connective that a value names. -/
def connective? (operator : Json) : Option Connective :=
  match Text.lower (Text.strip operator.asText) with
  | "and" => some .all
  | "or" => some .any
  | _ => none

/-- A course given as an object. -/
def ofCourseRecord (fields : List (String × Json)) : Except Fault Requirement :=
  let code := (Json.fieldOf fields "id").orElse (Json.fieldOf fields "course")
  let grade := (Json.fieldOf fields "grade").orElse (Json.fieldOf fields "min_grade")
  leaf (.str (Text.strip (code.orElse (.str "")).asText))
    (if grade.isBlank then .null else .str grade.asText)

mutual

/-- Reads one clause. -/
def ofClause : Json → Except Fault Requirement
  | .obj fields => ofCourseRecord fields
  | .str s => leaf (.str (Text.strip s)) .null
  | .arr [] => .error (.tree .emptyClause)
  | .arr (operator :: clauses) =>
    match connective? operator with
    | none => .error (.tree (.unknownOperator operator))
    | some c => do join c (← ofClauses clauses)
  | v => .error (.tree (.unrecognized v))

/-- Reads several clauses, the first fault first. -/
def ofClauses : List Json → Except Fault (List Requirement)
  | [] => .ok []
  | v :: vs => do return (← ofClause v) :: (← ofClauses vs)

end

/-- Reads a group given as an object with courses. -/
def ofGroupRecord (fields : List (String × Json)) (courses : Json) : Except Fault Requirement :=
  let operator := Json.fieldOf fields "type"
  match connective? (operator.orElse (.str "and")) with
  | none => .error (.tree (.unknownOperator operator))
  | some c => do
    let clauses ← if courses.isBlank then pure [] else courses.parts
    join c (← ofClauses clauses)

/-- Reads a requirement tree, `none` if nothing is required. -/
def ofWire (raw : Json) : Except Fault (Option Requirement) :=
  match raw with
  | .null => .ok none
  | .arr [] => .ok none
  | .obj fields =>
    match fields.lookup "courses" with
    | some courses => do return some (← ofGroupRecord fields courses)
    | none => do return some (← ofClause raw)
  | _ => do return some (← ofClause raw)

/-- Reads a requirement tree of the catalog. A broken tree must not keep a student from a course,
    so it counts as no requirement and gives a warning. -/
def ofWireOrNone (raw course : Json) : List String × Except Fault (Option Requirement) :=
  match ofWire raw with
  | .ok tree => ([], .ok tree)
  | .error fault =>
    if fault.isTreeFault then
      let label := if course.isBlank then "<unknown course>" else course.asText
      (["[WARN] Malformed prerequisite tree for " ++ label ++ "; treating as no prerequisites: " ++
        fault.message], .ok none)
    else ([], .error fault)

mutual

/-- Writes a tree as a value that reads back as the tree. -/
def wire : Requirement → Json
  | course code none => .obj [("id", .str code)]
  | course code (some l) => .obj [("id", .str code), ("grade", .str l.text)]
  | all parts => .arr (.str "and" :: wireOf parts)
  | any parts => .arr (.str "or" :: wireOf parts)

/-- Writes several trees. -/
def wireOf : List Requirement → List Json
  | [] => []
  | r :: rs => wire r :: wireOf rs

end

/-- Writes a tree that may be absent. -/
def toWire : Option Requirement → Json
  | none => .arr []
  | some r => r.wire

end DegreePlan.Requirement
