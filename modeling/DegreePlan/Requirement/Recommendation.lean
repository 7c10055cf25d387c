import DegreePlan.Requirement.Evaluation
import DegreePlan.Requirement.Wire

/-!
# Recommendations

The courses of a catalog that a student could add next: neither completed nor planned, within the
program if one is given, and with nothing missing from their prerequisites.
-/

namespace DegreePlan

/-- What a student has taken and plans to take. -/
structure Progress where
  completed : Completed
  planned : List String
  /-- Completed and planned entries that are no texts; no requirement mentions them. -/
  others : List Json := []

namespace Progress

/-- The texts among values. -/
def textsOf (values : List Json) : List String := values.filterMap Json.text?

/-- The values that are no texts. -/
def othersOf (values : List Json) : List Json := values.filter fun v => v.text?.isNone

/-- Checks that every value can be a member of a set. -/
def checkKeys (values : List Json) : Except Fault Unit := values.forM Json.checkKey

/-- Reads completed and planned courses. An object of completed courses holds their grades, any
    other value only their codes. -/
def read (completed planned : Json) : Except Fault Progress := do
  let (completed, others) ← match completed with
    | .obj fields =>
      pure (Completed.graded (fields.map fun (code, grade) => (code, Mark.of? grade)), [])
    | _ => do
      let values ← completed.parts
      checkKeys values
      pure (Completed.ungraded (textsOf values), othersOf values)
  let values ← planned.parts
  checkKeys values
  return { completed, planned := textsOf values, others := others ++ othersOf values }

/-- The course is completed or planned. -/
def lists (p : Progress) (code : Json) : Bool :=
  match code with
  | .str s => p.completed.codes.contains s || p.planned.contains s
  | _ => Json.isIn code p.others

end Progress

/-- A course that could be recommended. -/
structure Offer where
  code : Json
  /-- The prerequisites as the catalog gives them, or as they were read before. -/
  prerequisites : Json ⊕ Option Requirement

namespace Offer

/-- Reads an offer from an object. -/
def ofJson (v : Json) : Except Fault Offer :=
  match v.fields? with
  | none => .error (.value (.noFields v.kindName))
  | some fields =>
    .ok { code := Json.fieldOf fields "code"
          prerequisites := .inl (Json.fieldOf fields "prerequisites") }

/-- The prerequisites, with the warnings of reading them. -/
def tree (o : Offer) : List String × Except Fault (Option Requirement) :=
  match o.prerequisites with
  | .inl raw => Requirement.ofWireOrNone raw o.code
  | .inr tree => ([], .ok tree)

/-- The course is neither completed nor planned nor outside the program. -/
def isCandidate (o : Offer) (progress : Progress) (program : Option (List Json)) :
    Except Fault Bool :=
  if o.code.isBlank then .ok false
  else do
    o.code.checkKey
    return !progress.lists o.code && program.all (Json.isIn o.code)

/-- Decides whether the course is recommended, with the warnings of reading its prerequisites. -/
def isRecommended (o : Offer) (progress : Progress) (program : Option (List Json)) :
    List String × Except Fault Bool :=
  match o.isCandidate progress program with
  | .error fault => ([], .error fault)
  | .ok false => ([], .ok false)
  | .ok true =>
    let (log, tree) := o.tree
    (log, do return !(Requirement.judge (← tree) progress.completed progress.planned).isBlocked)

end Offer

/-- Picks the recommended offers in order, with all warnings up to the first fault. -/
def pickRecommended {α : Type} (offer : α → Except Fault Offer) (progress : Progress)
    (program : Option (List Json)) : List α → List String × Except Fault (List (Offer × α))
  | [] => ([], .ok [])
  | a :: as =>
    match offer a with
    | .error fault => ([], .error fault)
    | .ok o =>
      match o.isRecommended progress program with
      | (log, .error fault) => (log, .error fault)
      | (log, .ok keep) =>
        let (more, rest) := pickRecommended offer progress program as
        (log ++ more, rest.map fun picked => if keep then (o, a) :: picked else picked)

/-- The recommended items sorted by code. -/
def recommend {α : Type} (offer : α → Except Fault Offer) (progress : Progress)
    (program : Option (List Json)) (catalog : List α) : List String × Except Fault (List α) :=
  let (log, picked) := pickRecommended offer progress program catalog
  (log, do return (← Json.sortBy (fun (o, _) => o.code) (← picked)).map (·.2))

end DegreePlan
