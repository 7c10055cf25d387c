import DegreePlan.Catalog.Graph
import DegreePlan.Requirement.Wire
import DegreePlan.Term

/-!
# Catalogs

A catalog lists the courses that can be taken, each under a code of its own.
-/

namespace DegreePlan

/-- A course as the catalog lists it. -/
structure Listing where
  code : String
  title : String
  credits : Int
  prerequisites : Option Requirement
  /-- The prerequisites could not be read and count as none. -/
  isMalformed : Bool := false
  offerings : List Season
deriving Inhabited

namespace Listing

/-- The listing as a value. -/
def toJson (l : Listing) : List (String × Json) :=
  [("code", .str l.code), ("title", .str l.title), ("credits", .int l.credits),
   ("prerequisites", Requirement.toWire l.prerequisites),
   ("offerings", .arr (l.offerings.map fun s => .str s.text))]

end Listing

/-- A catalog: the names of its columns and its courses in the order of the rows. -/
structure Catalog where
  columns : List String
  courses : List Listing
deriving Inhabited

namespace Catalog

/-- Texts in order. -/
def sortTexts (texts : List String) : List String := texts.mergeSort fun a b => decide (a ≤ b)

/-- The codes of the courses. -/
def codes (c : Catalog) : List String := c.courses.map (·.code)

/-- The course of a code. -/
def find? (c : Catalog) (code : String) : Option Listing := c.courses.find? (·.code == code)

/-- The codes with their requirement trees. -/
def trees (c : Catalog) : List (String × Option Requirement) :=
  c.courses.map fun l => (l.code, l.prerequisites)

/-- The courses whose prerequisites could not be read, in the order of their codes. -/
def malformed (c : Catalog) : List String :=
  sortTexts ((c.courses.filter (·.isMalformed)).map (·.code))

/-- The graph from every course to the courses that it mentions. -/
def mentions (c : Catalog) : CourseGraph := .ofTrees c.trees

/-- The graph from every mentioned course to the courses that mention it. -/
def dependents (c : Catalog) : CourseGraph := .dependents c.codes c.mentions

end Catalog
end DegreePlan
