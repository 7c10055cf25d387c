import DegreePlan.Service.Request

/-!
# Routes

Which path leads where, and with which methods. A path with doubled slashes that would lead
somewhere with single ones is redirected there.
-/

namespace DegreePlan

/-- A place that requests can be sent to. -/
inductive Route where
  | health
  | evaluate
  | course (code : String)
  | recommend
  | semesters
  | semesterCourses
  /-- Files next to the service, of which there are none. -/
  | file
deriving DecidableEq, Inhabited

namespace Route

/-- The path of a single item: not empty, not beginning with a slash and on one line from its
    second character on. -/
def isItem (cs : List Char) : Bool :=
  match cs with
  | [] => false
  | c :: rest => c != '/' && !rest.contains '\n'

/-- The rest of a path below a folder, if an item stands there. -/
def itemBelow? (folder : String) (path : List Char) : Option (List Char) :=
  if folder.toList.isPrefixOf path then
    let item := path.drop folder.length
    if isItem item then some item else none
  else none

/-- The route of a path. -/
def ofPath? (path : List Char) : Option Route :=
  match String.ofList path with
  | "/health" => some health
  | "/evaluate" => some evaluate
  | "/recommend" => some recommend
  | "/semesters" => some semesters
  | "/semesters/courses" => some semesterCourses
  | _ =>
    match itemBelow? "/courses/" path, itemBelow? "/static/" path with
    | some code, _ => some (course (String.ofList code))
    | none, some _ => some file
    | none, none => none

/-- The methods that a route is made for. -/
def methods : Route → List Method
  | health | course _ | file => [.get]
  | evaluate | recommend => [.post]
  | semesters => [.get, .post]
  | semesterCourses => [.delete]

/-- The route accepts a method. Every route tells its options, and where a value can be read its
    headers can be, too. -/
def accepts (r : Route) (m : Method) : Bool :=
  match m with
  | .options => true
  | .head => r.methods.contains .get
  | _ => r.methods.contains m

end Route

/-- Halves doubled slashes, pair by pair. -/
def halveSlashes : List Char → List Char
  | '/' :: '/' :: rest => '/' :: halveSlashes rest
  | c :: rest => c :: halveSlashes rest
  | [] => []

/-- What a method and a path lead to. -/
inductive Destination where
  | route (r : Route)
  | redirect
  | wrongMethod
  | nowhere
deriving DecidableEq, Inhabited

/-- Finds where a method and a path lead. -/
def Destination.find (m : Method) (path : List Char) : Destination :=
  let direct := Route.ofPath? path
  let halved := Route.ofPath? (halveSlashes path)
  match direct.filter (·.accepts m), halved.filter (·.accepts m) with
  | some r, _ => route r
  | none, some _ => redirect
  | none, none => if direct.isSome || halved.isSome then wrongMethod else nowhere

end DegreePlan
