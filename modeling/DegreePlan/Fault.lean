import DegreePlan.Json.Display

/-!
# Faults

What can go wrong, by cause, with the wording of each cause in one place. A fault belongs to one
family; a caller that recovers from faults chooses by family.
-/

namespace DegreePlan

open DegreePlan.Text (quote)

/-- How the parts of a requirement are joined. -/
inductive Connective where
  | all
  | any
deriving DecidableEq, Inhabited

/-- The connective as a message names it. -/
def Connective.title : Connective → String
  | .all => "And"
  | .any => "Or"

/-- A value that does not fit where it is used. -/
inductive ValueFault where
  | notAnInteger (text : String)
  | integerTooLong (digits : Nat)
  | integerTooLongToWrite
  | nanAsInteger
  | infinityAsInteger
  | integerTooLargeForFloat
  | notANumber (kind : String)
  | notAReal (text : String)
  | notAKey (kind : String)
  | notAList (kind : String)
  | notAnObject (kind : String)
  | noParts (kind : String)
  | noFields (kind : String)
  | notComparable (left right : String)
  | notMultipliable (kind : String)
  | notAddable (left right : String)
  | notAPair (length : Nat)
  | notJson
  | missing (field : String)
  | missingArgument
  | seasonNotListed
  | batchNotListed

namespace ValueFault

/-- What is wrong. -/
def message : ValueFault → String
  | notAnInteger text => s!"invalid literal for int() with base 10: {quote text}"
  | integerTooLong digits =>
    "Exceeds the limit (4300 digits) for integer string conversion: value has " ++
      s!"{digits} digits; use sys.set_int_max_str_digits() to increase the limit"
  | integerTooLongToWrite =>
    "Exceeds the limit (4300 digits) for integer string conversion; " ++
      "use sys.set_int_max_str_digits() to increase the limit"
  | nanAsInteger => "cannot convert float NaN to integer"
  | infinityAsInteger => "cannot convert float infinity to integer"
  | integerTooLargeForFloat => "int too large to convert to float"
  | notANumber kind =>
    "int() argument must be a string, a bytes-like object or a real number, not '" ++ kind ++ "'"
  | notAReal text => s!"could not convert string to float: {quote text}"
  | notAKey kind => "unhashable type: '" ++ kind ++ "'"
  | notAList kind => "'" ++ kind ++ "' object is not iterable"
  | notAnObject kind => "'" ++ kind ++ "' object is not subscriptable"
  | noParts kind => "'" ++ kind ++ "' object has no attribute 'children'"
  | noFields kind => "'" ++ kind ++ "' object has no attribute 'get'"
  | notComparable left right =>
    "'<' not supported between instances of '" ++ left ++ "' and '" ++ right ++ "'"
  | notMultipliable kind =>
    "unsupported operand type(s) for *: 'float' and '" ++ kind ++ "'"
  | notAddable left right =>
    "unsupported operand type(s) for +: '" ++ left ++ "' and '" ++ right ++ "'"
  | notAPair length =>
    if length < 2 then s!"not enough values to unpack (expected 2, got {length})"
    else "too many values to unpack (expected 2)"
  | notJson => "not a JSON text"
  | missing field => quote field
  | missingArgument => "missing required argument"
  | seasonNotListed => "tuple.index(x): x not in tuple"
  | batchNotListed => "list.remove(x): x not in list"

end ValueFault

/-- A grade that the grade scale does not know. -/
inductive GradeFault where
  | unknown (raw : Json)
  | minimumNotLetter (raw : Json)

/-- What is wrong with the grade. -/
def GradeFault.message : GradeFault → String
  | unknown raw => s!"Unknown grade: {raw.shown}"
  | minimumNotLetter raw => s!"Minimum grade must be a letter grade, got {raw.shown}"

/-- A requirement that breaks the shape of requirement trees. -/
inductive TreeFault where
  | noCourse (course : Json)
  | minimumNotLetter (course grade : String)
  | noChildren (connective : Connective)
  | notARequirement (connective : Connective) (child : Json)
  | emptyClause
  | unknownOperator (operator : Json)
  | unrecognized (clause : Json)
  | notACourse (token : String)
  | noAlternatives (clause : String)
  | impossibleChoice (count options : String)
  | tooManyChoices (text : String)
  | unsupported (text : String)
  | notATree (v : Json)

/-- What is wrong with the tree. -/
def TreeFault.message : TreeFault → String
  | noCourse course => s!"Leaf needs a course code, got {course.shown}"
  | minimumNotLetter course grade =>
    s!"Leaf {course} has non-letter minimum grade {quote grade}"
  | noChildren connective => s!"{connective.title} node needs at least one child"
  | notARequirement connective child =>
    s!"{connective.title} child is not a requirement node: {child.shown}"
  | emptyClause => "Nested clause is empty"
  | unknownOperator operator => s!"Unknown operator {operator.shown}"
  | unrecognized clause => s!"Unrecognized clause: {clause.shown}"
  | notACourse token => s!"Not a course code: {quote token}"
  | noAlternatives clause => s!"Empty clause in {quote clause}"
  | impossibleChoice count options => s!"Cannot choose {count} from {quote options}"
  | tooManyChoices text => s!"Too many combinations for {quote text}"
  | unsupported text => s!"Unsupported prerequisite grammar: {quote text}"
  | notATree v => s!"Not a requirement node: {v.shown}"

/-- A term that the calendar does not know. -/
inductive TermFault where
  | unreadable (raw : Json)
  | unknownSeason (season : Json)
  | notASemesterId (id : Json)
  | graduationBeforeStart (graduation start : Json)

/-- What is wrong with the term. -/
def TermFault.message : TermFault → String
  | unreadable raw => s!"Cannot parse term from: {raw.shown} (expected e.g. 'Fall 2024')"
  | unknownSeason season => s!"Unknown season: {season.shown}"
  | notASemesterId id => s!"Not a semester id: {id.shown}"
  | graduationBeforeStart graduation start =>
    s!"Graduation term {graduation.shown} is before start term {start.shown}"

/-- A course record or a set of semesters that no plan can hold. -/
inductive RecordFault where
  | credits (raw : Json)
  | status (raw : Json)
  | wrongSemester (code : String) (claimed found : Int)
  | repeatedCourse (code : String)
  | otherUser

/-- What is wrong with the record. -/
def RecordFault.message : RecordFault → String
  | credits raw => s!"credits must be a non-negative integer, got {raw.shown}"
  | status raw =>
    s!"status must be one of ('completed', 'in-progress', 'planned'), got {raw.shown}"
  | wrongSemester code claimed found =>
    s!"Course {code} claims semester {claimed}, found in {found}"
  | repeatedCourse code => s!"Course {code} appears more than once in the plan"
  | otherUser => "Snapshot belongs to a different user"

/-- A change that the plan refuses. -/
inductive PlanFault where
  | inSemester (code label : String)
  | inOtherSemester (code label : String)
  | idInUse (id : Json)
  | unknownSemester (id : Json)
  | courseNotFound (id : Json) (label : String)
  | notSignedIn
  | otherSession

/-- Why the change is refused. -/
def PlanFault.message : PlanFault → String
  | inSemester code label => s!"{code} is already in {label}"
  | inOtherSemester code label => s!"{code} is already planned in {label}; move it instead"
  | idInUse id => s!"Course id {id.shown} is already in the plan"
  | unknownSemester id => s!"No semester with id {id.shown}"
  | courseNotFound id label => s!"Course {id.shown} is not in {label}"
  | notSignedIn => "Sign in before changing the plan."
  | otherSession => "That failure belongs to a different session."

/-- A semester that is not fit to be stored. -/
inductive PayloadFault where
  | notAnObject
  | noId
  | noTerm
  | coursesNotAList
  | courseIncomplete

/-- What the payload lacks. -/
def PayloadFault.message : PayloadFault → String
  | notAnObject => "Semester payload must be an object."
  | noId => "Semester payload needs an integer 'id'."
  | noTerm => "Semester payload needs 'season' and 'year'."
  | coursesNotAList => "'courses' must be a list."
  | courseIncomplete => "Every course needs 'id' and 'code'."

/-- An identity event that cannot be acted on. -/
inductive IdentityFault where
  | unknownKind (kind : Json)
  | noUser (kind : String)

/-- What is wrong with the event. -/
def IdentityFault.message : IdentityFault → String
  | unknownKind kind => s!"Unknown identity event kind: {kind.shown}"
  | noUser kind => s!"{kind} event needs a user id"

/-- A catalog table that cannot be used. -/
inductive TableFault where
  | noFile (path : String)
  | empty
  | tooManyFields (expected line found : Nat)
  | openQuote (row : Nat)
  | missingColumns (names : List String)

/-- What is wrong with the table. -/
def TableFault.message : TableFault → String
  | noFile path => path
  | empty => "No columns to parse from file"
  | tooManyFields expected line found =>
    s!"Error tokenizing data. C error: Expected {expected} fields in line {line}, saw {found}\n"
  | openQuote row => s!"Error tokenizing data. C error: EOF inside string starting at row {row}"
  | missingColumns names => s!"Catalog is missing column(s): {Json.shownTexts names}"

/-- A request that asks for something unreadable or for too much. -/
inductive RequestFault where
  | notCodes (field : String)
  | notACode (text : String)
  | tooManyCodes (field : String)
  | tooManyCompleted

/-- What is wrong with the request. -/
def RequestFault.message : RequestFault → String
  | notCodes field => "'" ++ field ++ "' must be a list or a comma-separated string."
  | notACode text => "'" ++ text ++ "' is not a valid course code."
  | tooManyCodes field => "Too many entries in '" ++ field ++ "'."
  | tooManyCompleted => "Too many completed courses."

/-- A collaborator or a directory that cannot be used. -/
inductive AccessFault where
  | noUser
  | unavailable (text : String)
  | directoryBlocked
  | notADirectory

/-- Why it cannot be used. -/
def AccessFault.message : AccessFault → String
  | noUser => "A user id is required."
  | unavailable text => text
  | directoryBlocked => "File exists"
  | notADirectory => "Not a directory"

/-- Anything that can go wrong. -/
inductive Fault where
  | value (cause : ValueFault)
  | grade (cause : GradeFault)
  | tree (cause : TreeFault)
  | term (cause : TermFault)
  | record (cause : RecordFault)
  | plan (cause : PlanFault)
  | payload (cause : PayloadFault)
  | identity (cause : IdentityFault)
  | table (cause : TableFault)
  | request (cause : RequestFault)
  | access (cause : AccessFault)

/-- The families of faults that callers tell apart. -/
inductive Family where
  /-- A value of the right kind that is not acceptable. -/
  | unacceptable
  /-- A value of the wrong kind. -/
  | wrongKind
  /-- An object without a field that is needed. -/
  | missingField
  /-- A value that lacks an operation. -/
  | missingPart
  /-- A number beyond the range of its target. -/
  | outOfRange
  /-- A change that the plan refuses. -/
  | refused
  /-- A collaborator, a file or a directory that fails. -/
  | external
deriving DecidableEq

/-- The family of a fault about a value. -/
def ValueFault.family : ValueFault → Family
  | notAnInteger _ | notAReal _ | integerTooLong _ | integerTooLongToWrite | nanAsInteger
  | notAPair _ | notJson | seasonNotListed | batchNotListed => .unacceptable
  | notANumber _ | notAKey _ | notAList _ | notAnObject _ | notComparable .. | notMultipliable _
  | notAddable .. | missingArgument => .wrongKind
  | missing _ => .missingField
  | noParts _ | noFields _ => .missingPart
  | infinityAsInteger | integerTooLargeForFloat => .outOfRange

namespace Fault

/-- The text of a fault. -/
def message : Fault → String
  | value cause => cause.message
  | grade cause => cause.message
  | tree cause => cause.message
  | term cause => cause.message
  | record cause => cause.message
  | plan cause => cause.message
  | payload cause => cause.message
  | identity cause => cause.message
  | table cause => cause.message
  | request cause => cause.message
  | access cause => cause.message

/-- The family of a fault. -/
def family : Fault → Family
  | value cause => cause.family
  | table (.noFile _) => .external
  | grade _ | tree _ | term _ | record _ | payload _ | identity _ | table _ | request _ =>
    .unacceptable
  | plan _ => .refused
  | access _ => .external

/-- The fault of a value that is not acceptable. -/
def isUnacceptable (f : Fault) : Bool := f.family == .unacceptable

/-- A fault that data of an unknown origin may cause: an unacceptable value, a value of the wrong
    kind or a missing field. -/
def isDataFault (f : Fault) : Bool :=
  f.family == .unacceptable || f.family == .wrongKind || f.family == .missingField

/-- A change that the plan refuses. -/
def isRefusal (f : Fault) : Bool := f.family == .refused

/-- A collaborator, a file or a directory that fails. -/
def isExternal (f : Fault) : Bool := f.family == .external

/-- The shape of a requirement tree is broken. -/
def isTreeFault : Fault → Bool
  | tree _ => true
  | _ => false

end Fault
end DegreePlan
