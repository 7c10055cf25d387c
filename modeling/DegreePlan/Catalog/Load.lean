import DegreePlan.Catalog.Basic
import DegreePlan.Catalog.Table
import DegreePlan.Json.Parser
import DegreePlan.Requirement.Prose

/-!
# Loading catalogs

A catalog is loaded from a table with a course on every row. Rows without a course code are left
out, and of several rows of one course the first counts. Prerequisites stand in one of two columns,
as a tree or in prose; the tree goes first. Prerequisites that cannot be read count as none, so that
a slip in the catalog keeps no student from a course.
-/

namespace DegreePlan

/-! ## Cells -/

/-- The cells of a row that describe a course. -/
structure CourseRow where
  code : Option String
  title : Option String
  credits : Option String
  prose : Option String
  tree : Option String
  offerings : Option String
deriving DecidableEq, Inhabited

namespace CourseRow

/-- Picks the cells by the names of the columns. -/
def ofCells (columns : List String) (cells : List (Option String)) : CourseRow :=
  let cell (name : String) : Option String := ((columns.zip cells).lookup name).join
  { code := cell "course_code", title := cell "title", credits := cell "credits"
    prose := cell "prereqs", tree := cell "prereq_json", offerings := cell "offerings" }

/-- The course code of the row. -/
def code? (r : CourseRow) : Option String := r.code.bind fun s => Course.code? (.str s)

/-- The whole credits. A cell that is no number means none, and so does a missing cell; only an
    infinite number is refused. -/
def readCredits (r : CourseRow) : Except Fault Int :=
  match r.credits.bind Number.readFloat? with
  | none => .ok 0
  | some x =>
    match (Json.real x).toInteger with
    | .ok n => .ok n
    | .error f => if f.isUnacceptable then .ok 0 else .error f

/-- The seasons in which a course is offered when the catalog does not say. -/
def allSeasons : List Season := [.fall, .spring, .summer]

/-- The seasons that the cell lists, or all of them if it is blank. -/
def readOfferings (r : CourseRow) : List Season :=
  let text := r.offerings.getD ""
  if (Text.strip text).isEmpty then allSeasons
  else
    let words := (Text.cutAt (fun c => c == ',' || c == ';') text.toList).map fun piece =>
      Text.capitalize (Text.strip (String.ofList piece))
    allSeasons.filter fun s => words.contains s.text

/-- The requirement tree that a text writes down as a value. -/
def readTree (text : String) : Except Fault (Option Requirement) :=
  match Json.parse? text with
  | some v => Requirement.ofWire v
  | none => .error (.value .notJson)

/-- The prerequisites, `none` if they are malformed. The column with trees goes first unless it is
    blank. -/
def readPrerequisites (r : CourseRow) : Except Fault (Option (Option Requirement)) :=
  let text := r.tree.getD ""
  if (Text.strip text).isEmpty then
    match Requirement.ofProse (r.prose.getD "") with
    | .ok tree => .ok (some tree)
    | .error f => if f.isTreeFault then .ok none else .error f
  else
    match readTree text with
    | .ok tree => .ok (some tree)
    | .error f => if f.isUnacceptable then .ok none else .error f

/-- The listing of a row, whose code and credits have been read. -/
def toListing (r : CourseRow) (code : String) (credits : Int) : Except Fault Listing := do
  let prerequisites ← r.readPrerequisites
  return { code, credits
           title := Text.strip (r.title.getD "")
           prerequisites := prerequisites.join
           isMalformed := prerequisites.isNone
           offerings := r.readOfferings }

end CourseRow

/-! ## Catalogs -/

namespace Catalog

/-- The columns that a catalog must have. -/
def requiredColumns : List String := ["course_code", "credits"]

/-- The columns that a catalog may have. -/
def optionalColumns : List String := ["title", "prereqs", "prereq_json", "offerings"]

/-- Names of columns are compared without blanks around them and in lower case. -/
def columnKey (name : String) : String := Text.lower (Text.strip name)

/-- The first row of every code, with its code. -/
def firstRows (rows : List CourseRow) : List (String × CourseRow) :=
  rows.foldl (fun kept r =>
    match r.code? with
    | none => kept
    | some code => if kept.any (·.1 == code) then kept else kept ++ [(code, r)]) []

/-- The texts that stand in place of a course code, each once and in order. -/
def badCodes (rows : List CourseRow) : List String :=
  let texts := (rows.filter fun r => r.code?.isNone).filterMap (·.code)
  sortTexts (Course.distinct (texts.filter (!·.isEmpty)))

/-- The warning about rows without a course code. -/
def codeWarning (texts : List String) : List String :=
  if texts.isEmpty then []
  else [s!"[WARN] {texts.length} catalog row(s) have unparseable course codes: " ++
    Json.shownTexts texts]

/-- The warning about malformed prerequisites. -/
def malformedWarning (codes : List String) : List String :=
  if codes.isEmpty then []
  else [s!"[WARN] {codes.length} course(s) have malformed prerequisites (treated as none): " ++
    Json.shownTexts codes]

/-- The courses of rows. The credits of all rows are read before any prerequisites. -/
def listings (rows : List (String × CourseRow)) : Except Fault (List Listing) := do
  let credits ← rows.mapM fun (_, r) => r.readCredits
  (rows.zip credits).mapM fun ((code, r), n) => r.toListing code n

/-- The names of a table's columns as they are compared. -/
def columnsOf (t : Table) : Except Fault (List String) :=
  let columns := t.columns.map columnKey
  let absent := requiredColumns.filter fun name => !columns.contains name
  if absent.isEmpty then .ok columns else .error (.table (.missingColumns absent))

/-- Loads a catalog from a table, with the warnings up to the first fault. -/
def ofTable (t : Table) : List String × Except Fault Catalog :=
  match columnsOf t with
  | .error f => ([], .error f)
  | .ok columns =>
    let rows := t.rows.map (CourseRow.ofCells columns)
    let warning := codeWarning (badCodes rows)
    match listings (firstRows rows) with
    | .error f => (warning, .error f)
    | .ok courses =>
      let more := optionalColumns.filter fun name => !columns.contains name
      let catalog := { columns := columns ++ more, courses }
      (warning ++ malformedWarning catalog.malformed, .ok catalog)

/-- Loads the catalog of a file at `path`, whose text is `none` if there is no file. -/
def load (path : String) (text : Option String) : List String × Except Fault Catalog :=
  match text with
  | none => ([], .error (.table (.noFile path)))
  | some text =>
    match Table.read text with
    | .error f => ([], .error f)
    | .ok t => ofTable t

end Catalog
end DegreePlan
