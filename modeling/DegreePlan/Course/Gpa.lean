import DegreePlan.Course.Grade

/-!
# Grade point averages

The average of the points of letter grades, weighted by credits. Grades without points enter
neither the points nor the credits.
-/

namespace DegreePlan

/-- Credits, as a whole number where all of them are. -/
inductive Credits where
  | whole (n : Int)
  | real (x : Float)

namespace Credits

/-- The credits that a value stands for. -/
def ofJson : Json → Except Fault Credits
  | .bool b => .ok (.whole (if b then 1 else 0))
  | .int n => .ok (.whole n)
  | .real x => .ok (.real x)
  | v => .error (.value (.notMultipliable v.kindName))

/-- As a value. -/
def toJson : Credits → Json
  | whole n => .int n
  | real x => .real x

/-- As a float; a whole number may be too large. -/
def toFloat : Credits → Except Fault Float
  | whole n =>
    match Number.floatOfInt? n with
    | some x => .ok x
    | none => .error (.value .integerTooLargeForFloat)
  | real x => .ok x

/-- The sum, whole if both parts are. -/
def add : Credits → Credits → Except Fault Credits
  | whole m, whole n => .ok (.whole (m + n))
  | a, b => do return .real ((← a.toFloat) + (← b.toFloat))

/-- More than none. -/
def isPositive : Credits → Bool
  | whole n => 0 < n
  | real x => 0.0 < x

end Credits

/-- Points and credits collected so far. -/
structure Tally where
  points : Float := 0.0
  credits : Credits := .whole 0

namespace Tally

/-- Counts one grade; a grade without points leaves the tally as it is. -/
def count (t : Tally) (letter : Option Letter) (credits : Credits) : Except Fault Tally :=
  match letter with
  | none => .ok t
  | some l => do
    let points := t.points + Float.ofNat l.points * (← credits.toFloat)
    return { points, credits := ← t.credits.add credits }

/-- The average, zero when no credits count. -/
def average (t : Tally) : Except Fault Float :=
  if t.credits.isPositive then do return t.points / (← t.credits.toFloat) else .ok 0.0

end Tally

/-- The average of grades with whole credits. -/
def gradePointAverage (graded : List (Option Letter × Int)) : Except Fault Float := do
  let count (t : Tally) (row : Option Letter × Int) := t.count row.1 (.whole row.2)
  let tally ← graded.foldlM count {}
  tally.average

/-- The grade and the credits of a row of two parts. -/
def gradedRow (row : Json) : Except Fault (Json × Json) := do
  match ← row.parts with
  | [grade, credits] => return (grade, credits)
  | parts => throw (.value (.notAPair parts.length))

/-- Tallies rows of a grade and credits, both of any kind. The credits of a row whose grade has no
    points are not looked at. -/
def tallyRows (rows : Json) : Except Fault Tally := do
  (← rows.parts).foldlM (fun t row => do
    let (grade, credits) ← gradedRow row
    match Letter.of? grade with
    | none => return t
    | some l => t.count (some l) (← Credits.ofJson credits)) {}

end DegreePlan
