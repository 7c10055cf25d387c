import DegreePlan.Archive
import DegreePlan.Catalog.Bundled
import DegreePlan.Service.Feed
import DegreePlan.Service.Input
import DegreePlan.Service.Route

/-!
# The service

The service answers requests about the catalog and keeps the plans of users. Questions about courses
look at the catalog file first; the plans are reached only by requests that name a user, and every
request reaches the plans of its own user alone.
-/

namespace DegreePlan

/-- What a service holds between requests. -/
structure Service where
  feed : Feed
  archive : Archive := {}
  /-- The greatest number of courses in one input. -/
  maxListInput : Int := 500
deriving Inhabited

namespace Service

/-- The service over a directory that holds the bundled catalog, changed at a given time. -/
def start (directory : String) (changed : Int) : Service :=
  let feed : Feed :=
    { path := directory ++ "/courses.csv", file := some { text := Catalog.bundled, changed } }
  { feed := (feed.reload).2.2 }

/-- Loads the catalog file again if it has changed or if it is forced to. -/
def reload (s : Service) (force : Bool := false) : List String × Bool × Service :=
  let (log, done, feed) := s.feed.reload force
  (log, done, { s with feed })

/-! ## Courses -/

/-- The catalog in use. -/
def catalog (s : Service) : Catalog := s.feed.catalog

/-- How many courses there are and how many of them are malformed. -/
def health (s : Service) : Response :=
  .ok [("status", .str "ok"), ("courses_loaded", .int s.catalog.courses.length),
    ("malformed_prereqs", .int s.catalog.malformed.length)]

/-- A request whose body is no object. -/
def noObject : Response := .invalid "Request body must be valid JSON."

/-- What is to be judged: a course of the catalog or a tree of the request. -/
inductive Subject where
  | listed (l : Listing)
  | inline (raw : Json)

/-- What an evaluation request asks about. -/
def subject (s : Service) (fields : List (String × Json)) : Except Response Subject :=
  let requested := Json.fieldOf fields "requested_course"
  if requested.isBlank then
    match fields.lookup "prerequisites" with
    | some raw => .ok (.inline raw)
    | none => .error (.invalid "Provide 'requested_course' or 'prerequisites'.")
  else
    match Course.code? (.str requested.asText) with
    | none => .error (.ofFault (.request (.notACode requested.asText)))
    | some code =>
      match s.catalog.find? code with
      | none => .error (.unknownCourse code)
      | some l => .ok (.listed l)

/-- The code of the subject, null for a tree of the request. -/
def Subject.code : Subject → Json
  | listed l => .str l.code
  | inline _ => .null

/-- The requirement tree of the subject, with the warnings of reading it. -/
def Subject.tree : Subject → List String × Except Fault (Option Requirement)
  | listed l => ([], .ok l.prerequisites)
  | inline raw => Requirement.ofWireOrNone raw .null

/-- The answer to an evaluation. -/
def evaluation (code : Json) (tree : Option Requirement) (progress : Progress) : Response :=
  .ok ([("mode", .str "evaluate"), ("requested_course", code)] ++
    (Requirement.judge tree progress.completed progress.planned).toJson ++
    [("check", .str (Requirement.checkText tree progress.completed progress.planned)),
     ("prerequisites", Requirement.toWire tree)])

/-- Judges prerequisites against completed and planned courses. -/
def evaluate (s : Service) (body : Json) : List String × Response :=
  match body with
  | .obj fields =>
    match Input.readProgress s.maxListInput fields with
    | .error f => ([], .ofFault f)
    | .ok progress =>
      match s.subject fields with
      | .error response => ([], response)
      | .ok subject =>
        match subject.tree with
        | (log, .ok tree) => (log, evaluation subject.code tree progress)
        | (log, .error f) => (log, .ofFault f)
  | _ => ([], noObject)

/-- Describes a course of the catalog with the courses that need it next and the length of the
    longest chain of courses that depend on it. -/
def course (s : Service) (text : String) : Response :=
  match (Course.code? (.str text)).bind s.catalog.find? with
  | none => .unknownCourse text
  | some l =>
    let dependents := s.catalog.dependents
    .ok (l.toJson ++
      [("unlocks", .arr ((dependents.next l.code).map .str)),
       ("chain_depth", .int ((dependents.depths.lookup l.code).getD 0))])

/-- A course of the catalog as it is offered. -/
def offer (l : Listing) : Except Fault Offer :=
  .ok { code := .str l.code, prerequisites := .inr l.prerequisites }

/-- Recommends courses of the catalog. -/
def recommend (s : Service) (body : Json) : List String × Response :=
  match body with
  | .obj fields =>
    let input : Except Fault (Progress × Option (List Json)) := do
      let progress ← Input.readProgress s.maxListInput fields
      return (progress,
        ← Input.readProgram s.maxListInput (Json.fieldOf fields "program_courses"))
    match input with
    | .error f => ([], .ofFault f)
    | .ok (progress, program) =>
      match DegreePlan.recommend offer progress program s.catalog.courses with
      | (log, .ok courses) =>
        (log, .ok [("mode", .str "recommend"),
          ("courses", .arr (courses.map fun l => .obj l.toJson))])
      | (log, .error f) => (log, .ofFault f)
  | _ => ([], noObject)

/-! ## Plans -/

/-- The stored semesters of a user. -/
def semesters (s : Service) (user : String) : Response :=
  .written [("semesters", s.archive.document user)]

/-- Stores a semester of a user. -/
def saveSemester (s : Service) (user : String) (body : Json) : Response × Archive :=
  match s.archive.save user body with
  | .ok (row, archive) => (.written [("semester", row.toJson)], archive)
  | .error f => (.ofFault f, s.archive)

/-- Deletes courses from the stored semesters of a user. No fault on the way is explained. -/
def deleteCourses (s : Service) (user : String) (body : Json) : Response × Archive :=
  match body with
  | .obj fields =>
    match Json.fieldOf fields "course_ids" with
    | .arr items =>
      match Input.readIds? items with
      | none => (.invalid "'course_ids' must hold strings or integers.", s.archive)
      | some ids =>
        match s.archive.delete user (.arr ids) with
        | (archive, .ok n) => (.ok [("removed", .int n)], archive)
        | (archive, .error _) => ({ status := 500 }, archive)
    | _ => (.invalid "'course_ids' must be a list.", s.archive)
  | _ => (.invalid "'course_ids' must be a list.", s.archive)

/-! ## Requests -/

/-- What a request brings about. -/
structure Reply where
  log : List String := []
  response : Response
  service : Service

/-- Answers with the catalog at hand after a look at its file. -/
def withCatalog (s : Service) (answer : Service → List String × Response) : Reply :=
  let (log, _, s) := s.reload
  let (more, response) := answer s
  { log := log ++ more, response, service := s }

/-- Answers for the user that the request names. -/
def forUser (s : Service) (r : Request) (answer : String → Response × Archive) : Reply :=
  match r.userId? with
  | none => { response := .unauthenticated, service := s }
  | some user =>
    let (response, archive) := answer user
    { response, service := { s with archive } }

/-- Answers a request for a route with one of its methods. -/
def serve (s : Service) (route : Route) (r : Request) : Reply :=
  match route with
  | .health => { response := s.health, service := s }
  | .evaluate => s.withCatalog (·.evaluate r.json)
  | .course code => s.withCatalog fun s => ([], s.course code)
  | .recommend => s.withCatalog (·.recommend r.json)
  | .semesters =>
    s.forUser r fun user =>
      if r.method == .post then s.saveSemester user r.json else (s.semesters user, s.archive)
  | .semesterCourses => s.forUser r fun user => s.deleteCourses user r.json
  | .file => { response := { status := 404 }, service := s }

/-- Answers a request. The options of a route are told without asking it, and an answer to a
    request for headers has no body. -/
def handle (s : Service) (r : Request) : Reply :=
  match Destination.find r.method r.path with
  | .nowhere => { response := { status := 404 }, service := s }
  | .wrongMethod => { response := { status := 405 }, service := s }
  | .redirect => { response := { status := 308 }, service := s }
  | .route route =>
    match r.method with
    | .options => { response := { status := 200 }, service := s }
    | .head =>
      let reply := s.serve route r
      { reply with response := { status := reply.response.status } }
    | _ => s.serve route r

end Service
end DegreePlan
