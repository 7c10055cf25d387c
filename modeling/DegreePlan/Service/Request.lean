import DegreePlan.Fault
import DegreePlan.Json.Parser
import DegreePlan.Json.Printer
import DegreePlan.Text.Blank
import DegreePlan.Text.Case
import DegreePlan.Text.Percent

/-!
# Requests and responses

A request names a method and a target and carries headers and a body; a response has a status and
perhaps a value. Only a body that is declared to be a value is read as one.
-/

namespace DegreePlan

/-- What a request wants done. -/
inductive Method where
  | get
  | head
  | post
  | delete
  | options
  | other
deriving DecidableEq, Inhabited

/-- The method of a name in any case. -/
def Method.ofText (name : String) : Method :=
  match Text.upper name with
  | "GET" => get
  | "HEAD" => head
  | "POST" => post
  | "DELETE" => delete
  | "OPTIONS" => options
  | _ => other

/-- A request. -/
structure Request where
  method : Method := .get
  /-- The path and what may follow it: a query and a fragment. -/
  target : String
  headers : List (String × String) := []
  body : String := ""
deriving Inhabited

namespace Request

/-! ## Path -/

/-- The path without the name of the host in front of it. -/
def dropHost (cs : List Char) : List Char :=
  match cs with
  | '/' :: '/' :: rest => rest.dropWhile (· != '/')
  | _ => cs

/-- The path, decoded and with one slash in front. -/
def path (r : Request) : List Char :=
  let cs := r.target.toList.filter fun c => !(c == '\t' || c == '\n' || c == '\r')
  let cs := dropHost (cs.takeWhile fun c => !(c == '?' || c == '#'))
  '/' :: (Text.percentDecode cs).dropWhile (· == '/')

/-! ## Headers -/

/-- Names of headers are compared in lower case, and an underscore counts as a hyphen. -/
def headerKey (name : String) : String :=
  String.ofList (name.toList.map fun c => if c == '_' then '-' else c.toLower)

/-- The value of a header; several values are joined by commas. -/
def header? (r : Request) (name : String) : Option String :=
  match r.headers.filter fun (n, _) => headerKey n == headerKey name with
  | [] => none
  | values => some (",".intercalate (values.map (·.2)))

/-- The user that the request speaks for. -/
def userId? (r : Request) : Option String :=
  let user := Text.strip ((r.header? "X-User-Id").getD "")
  if user.isEmpty then none else some user

/-! ## Body -/

/-- The media type without its parameters. -/
def mediaType (r : Request) : String :=
  let value := (r.header? "Content-Type").getD ""
  Text.lower (Text.strip (String.ofList (value.toList.takeWhile (· != ';'))))

/-- The body is declared to be a value. -/
def declaresJson (r : Request) : Bool :=
  let mediaType := r.mediaType
  mediaType == "application/json" ||
    ("application/".isPrefixOf mediaType && mediaType.endsWith "+json")

/-- The value in the body, null if there is none. -/
def json (r : Request) : Json :=
  if r.declaresJson then (Json.parse? (String.ofList (Text.dropMark r.body.toList))).getD .null
  else .null

end Request

/-- A response; without a value the body is a page or empty. -/
structure Response where
  status : Nat
  body : Option Json := none
deriving Inhabited

namespace Response

/-- The headers of every response: no framing, no guessing of types, no referrer for others. -/
def securityHeaders : List (String × String) :=
  [("X-Frame-Options", "DENY"), ("X-Content-Type-Options", "nosniff"),
   ("Referrer-Policy", "same-origin")]

/-- A value that was asked for. -/
def ok (fields : List (String × Json)) : Response := { status := 200, body := some (.obj fields) }

/-- A value that was computed. One that is too long to be written is a fault that is not explained. -/
def written (fields : List (String × Json)) : Response :=
  if (Json.obj fields).isWritable then ok fields else { status := 500 }

/-- An error with its code and its message. -/
def error (status : Nat) (code message : String) : Response :=
  { status
    body := some (.obj [("error",
      .obj [("error_code", .str code), ("message", .str message)])]) }

/-- The request cannot be read. -/
def invalid (message : String) : Response := error 400 "INVALID_INPUT" message

/-- The request names no user. -/
def unauthenticated : Response := error 401 "AUTH_REQUIRED" "Authentication required."

/-- The catalog does not list a course. -/
def unknownCourse (course : String) : Response :=
  error 404 "COURSE_NOT_FOUND" (course ++ " is not in the catalog.")

/-- A fault while the request was handled: an unacceptable value is the sender's, any other fault
    is not explained. -/
def ofFault (f : Fault) : Response :=
  if f.isUnacceptable then invalid f.message else { status := 500 }

end Response
end DegreePlan
