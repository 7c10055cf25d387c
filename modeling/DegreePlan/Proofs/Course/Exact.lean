import Mathlib.Algebra.BigOperators.Group.List.Basic
import Mathlib.Algebra.Order.Ring.Rat
import DegreePlan.Plan.Basic
import DegreePlan.Proofs.Fallible

/-!
# Averages in exact arithmetic

The average is computed in one way, whatever the numbers are. With floats it is the grade point average of the
library. With rational numbers it is the mean of the points, weighted by the credits, and there the order of the
courses does not matter.
-/

namespace DegreePlan

/-- What averages are computed with. A whole number may be out of range. -/
structure Arithmetic (α : Type) where
  zero : α
  points : Nat → α
  whole : Int → Except Fault α
  add : α → α → α
  mul : α → α → α
  div : α → α → α

namespace Arithmetic

variable {α : Type}

/-- Counts one grade towards the points and the credits. -/
def count (A : Arithmetic α) (tally : α × Int) (row : Option Letter × Int) : Except Fault (α × Int) :=
  match row.1 with
  | none => .ok tally
  | some l => do return (A.add tally.1 (A.mul (A.points l.points) (← A.whole row.2)), tally.2 + row.2)

/-- The average of grades with whole credits, zero when no credits count. -/
def average (A : Arithmetic α) (graded : List (Option Letter × Int)) : Except Fault α := do
  let (points, credits) ← graded.foldlM A.count (A.zero, 0)
  if 0 < credits then return A.div points (← A.whole credits) else return A.zero

/-- The arithmetic of floats. -/
def floats : Arithmetic Float where
  zero := 0.0
  points := Float.ofNat
  whole n := (Credits.whole n).toFloat
  add := (· + ·)
  mul := (· * ·)
  div := (· / ·)

/-- The grade point average is the average in floats. -/
theorem gradePointAverage_eq (graded : List (Option Letter × Int)) :
    gradePointAverage graded = floats.average graded := by
  have tallied : ∀ (points : Float) (credits : Int),
      graded.foldlM (fun (t : Tally) row => t.count row.1 (.whole row.2)) { points, credits := .whole credits } =
        (fun tally : Float × Int => ({ points := tally.1, credits := .whole tally.2 } : Tally)) <$>
          graded.foldlM floats.count (points, credits) := by
    induction graded with
    | nil => exact fun points credits => rfl
    | cons row graded ih =>
      obtain ⟨letter, n⟩ := row
      intro points credits
      rw [List.foldlM_cons, List.foldlM_cons]
      cases letter with
      | none => exact ih points credits
      | some l =>
        simp only [Tally.count, count, floats, Credits.add]
        cases (Credits.whole n).toFloat with
        | error f => rfl
        | ok x => exact ih _ _
  have start : ({} : Tally) = { points := floats.zero, credits := .whole 0 } := rfl
  simp only [gradePointAverage, average, start, tallied]
  cases graded.foldlM floats.count (floats.zero, 0) with
  | error f => rfl
  | ok tally =>
    obtain ⟨points, credits⟩ := tally
    change Tally.average { points, credits := .whole credits } = _
    by_cases positive : 0 < credits
    · simp only [Tally.average, Credits.isPositive, positive, decide_true, if_true, ok_bind]
      rfl
    · simp only [Tally.average, Credits.isPositive, positive, decide_false, Bool.false_eq_true, if_false, ok_bind]
      rfl

/-- The arithmetic of rational numbers, where nothing is rounded or out of range. -/
def exact : Arithmetic Rat where
  zero := 0
  points n := n
  whole n := .ok n
  add := (· + ·)
  mul := (· * ·)
  div := (· / ·)

end Arithmetic

/-- The points of a grade, weighted by its credits. -/
def qualityPoints (row : Option Letter × Int) : Rat := row.1.elim 0 fun l => l.points * row.2

/-- The credits that count: those of a grade with points. -/
def countedCredits (row : Option Letter × Int) : Int := row.1.elim 0 fun _ => row.2

/-- The mean of the points, weighted by the credits. -/
def meanPoints (graded : List (Option Letter × Int)) : Rat :=
  if 0 < (graded.map countedCredits).sum then (graded.map qualityPoints).sum / (graded.map countedCredits).sum else 0

namespace Arithmetic

theorem exact_foldlM (graded : List (Option Letter × Int)) (points : Rat) (credits : Int) :
    graded.foldlM exact.count (points, credits) =
      .ok (points + (graded.map qualityPoints).sum, credits + (graded.map countedCredits).sum) := by
  induction graded generalizing points credits with
  | nil => simp [pure, Except.pure]
  | cons row graded ih =>
    obtain ⟨letter, n⟩ := row
    rw [List.foldlM_cons, List.map_cons, List.map_cons, List.sum_cons, List.sum_cons, ← add_assoc,
      ← add_assoc, ← ih]
    cases letter with
    | none => simp [count, qualityPoints, countedCredits]
    | some l => rfl

/-- Without rounding the average is the weighted mean. -/
theorem exact_average (graded : List (Option Letter × Int)) : exact.average graded = .ok (meanPoints graded) := by
  simp only [average, exact_foldlM, ok_bind, meanPoints]
  rw [show exact.zero = 0 from rfl, zero_add, zero_add]
  split <;> rfl

end Arithmetic

theorem meanPoints_perm {graded graded' : List (Option Letter × Int)} (perm : graded.Perm graded') :
    meanPoints graded = meanPoints graded' := by
  rw [meanPoints, meanPoints, (perm.map qualityPoints).sum_eq, (perm.map countedCredits).sum_eq]

/-! ## Averages of plans -/

variable {α : Type}

/-- The grades and credits that count towards an average. -/
def gradedRows (entries : List Entry) : List (Option Letter × Int) :=
  (entries.filter (·.status == .completed)).map fun e => (e.grade.bind Grade.letter?, (e.credits : Int))

/-- The average of all completed courses of a plan in some arithmetic. -/
def Plan.averageIn (A : Arithmetic α) (p : Plan) : Except Fault α := do A.average (gradedRows (← p.courses))

/-- The average of a plan is the one in floats. -/
theorem Plan.average_eq (p : Plan) : p.average = p.averageIn .floats := by
  simp only [average, averageIn, averageOf, gradedRows, Arithmetic.gradePointAverage_eq]

end DegreePlan
