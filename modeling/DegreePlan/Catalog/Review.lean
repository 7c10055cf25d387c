import DegreePlan.Catalog.Load

/-!
# Reviewing catalogs

Before a catalog is published it is reviewed. Malformed prerequisites and courses that require
themselves through a chain of others are errors. Prerequisites that are not in the catalog and
courses without credits are worth a warning.
-/

namespace DegreePlan

/-- What a review of a catalog found. -/
structure CatalogReview where
  errors : List String
  warnings : List String
deriving DecidableEq, Inhabited

namespace Catalog

/-- The errors about malformed prerequisites, which would unblock a course without a word. -/
def malformedErrors (c : Catalog) : List String :=
  c.malformed.map fun code => s!"{code}: prerequisites could not be parsed"

/-- The courses that a course mentions and the catalog does not list. -/
def unknownReferences (c : Catalog) (code : String) : List String :=
  (c.mentions.next code).filter fun mentioned => !c.codes.contains mentioned

/-- The warnings about mentioned courses that are not listed, in the order of the codes. -/
def referenceWarnings (c : Catalog) : List String :=
  (sortTexts c.codes).filterMap fun code =>
    match c.unknownReferences code with
    | [] => none
    | unknown =>
      some (s!"{code}: references courses not in the catalog: " ++ ", ".intercalate unknown)

/-- The warnings about courses without credits. -/
def creditWarnings (c : Catalog) : List String :=
  (c.courses.filter (·.credits ≤ 0)).map fun l => s!"{l.code}: has no credit hours"

/-- The errors about courses that require themselves. -/
def cycleErrors (c : Catalog) : List String :=
  c.mentions.cycles.map fun path => "Prerequisite cycle: " ++ " -> ".intercalate path

/-- Reviews a catalog. -/
def review (c : Catalog) : CatalogReview where
  errors := c.malformedErrors ++ c.cycleErrors
  warnings := c.referenceWarnings ++ c.creditWarnings

end Catalog

namespace CatalogReview

/-- The catalog may be published. -/
def passed (r : CatalogReview) : Bool := r.errors.isEmpty

/-- The lines of a report about the catalog of a source. -/
def report (r : CatalogReview) (source : String) : List String :=
  let status := if r.passed then "PASS" else "FAIL"
  let details := r.errors.map ("  [ERROR] " ++ ·) ++ r.warnings.map ("  [WARN]  " ++ ·)
  s!"[{status}] Catalog '{source}'" ::
    if details.isEmpty then ["  All checks passed."] else details

/-- The report as one text. -/
def summary (r : CatalogReview) (source : String) : String := "\n".intercalate (r.report source)

end CatalogReview

/-- The outcome of the check of a catalog file before it is published. -/
structure Clearance where
  /-- What went wrong while the catalog was loaded. -/
  notices : List String
  report : List String := []
  passed : Bool

/-- Checks the catalog of a source before it is published. It is read from the file `path`, whose
    text is `none` if there is no such file. A file that is no catalog is not cleared. -/
def Catalog.clear (source path : String) (text : Option String) : Except Fault Clearance :=
  match Catalog.load path text with
  | (notices, .ok c) =>
    let review := c.review
    .ok { notices, report := review.report source, passed := review.passed }
  | (notices, .error f) =>
    if f.isUnacceptable || f.family == .external then
      let notice := s!"[FATAL] Could not load catalog: {f.message}"
      .ok { notices := notices ++ [notice], passed := false }
    else .error f

end DegreePlan
