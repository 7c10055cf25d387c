import DegreePlan.Plan.Basic

/-!
# Mutations

A mutation is a change of a plan that can be applied again later. Applying it tells which semesters
it touched and which courses it deleted, because just these have to be written to the backend.
-/

namespace DegreePlan.Sync

/-- A change of a plan. -/
inductive Mutation where
  | add (entry : Entry)
  | remove (semester id : Json)
  | move (id source target : Json)
  | setStatus (semester id status grade : Json)
  | setGrade (semester id grade : Json)
  | generate (start graduation : Json)
  | clearPlanned

/-- What a mutation did. -/
structure Effect where
  /-- The semesters whose courses changed, each once. -/
  semesters : List Json := []
  /-- The ids of the courses that are gone. -/
  deleted : List Json := []

/-- Nothing was done. -/
def Effect.isEmpty (e : Effect) : Bool := e.semesters.isEmpty && e.deleted.isEmpty

namespace Mutation

/-- Applies a mutation to a plan. -/
def apply (p : Plan) : Mutation → Except Fault (Effect × Plan)
  | add entry => do return ({ semesters := [entry.semester] }, ← p.addCourse entry)
  | remove semester id => do
    match ← p.removeCourse semester id with
    | (none, p) => return ({}, p)
    | (some _, p) => return ({ semesters := [semester], deleted := [id] }, p)
  | move id source target => do
    let (_, p) ← p.moveCourse id source target
    return ({ semesters := Json.distinct [source, target] }, p)
  | setStatus semester id status grade => do
    let (_, p) ← p.setStatus semester id status grade
    return ({ semesters := [semester] }, p)
  | setGrade semester id grade => do
    let (_, p) ← p.setGrade semester id grade
    return ({ semesters := [semester] }, p)
  | generate start graduation => do
    let before := (← p.ordered).map (·.id)
    let (semesters, p) ← p.generate start graduation
    let created := (semesters.map (·.id)).filter fun id => !before.contains id
    return ({ semesters := created.map .int }, p)
  | clearPlanned => do
    let (removed, p) ← p.clearPlanned
    let semesters := Json.distinct (removed.map (·.semester))
    return ({ semesters, deleted := removed.map (·.id) }, p)

/-- Both change a plan in the same way. -/
def same : Mutation → Mutation → Bool
  | add a, add b => a.same b
  | remove s i, remove t j => s.same t && i.same j
  | move i s t, move j u v => i.same j && s.same u && t.same v
  | setStatus s i x g, setStatus t j y h => s.same t && i.same j && x.same y && g.same h
  | setGrade s i g, setGrade t j h => s.same t && i.same j && g.same h
  | generate a b, generate c d => a.same c && b.same d
  | clearPlanned, clearPlanned => true
  | _, _ => false

end Mutation
end DegreePlan.Sync
