import DegreePlan.Json.Convert
import DegreePlan.Text.Blank
import DegreePlan.Text.Case

/-!
# Grades

Letter grades carry points. Withdrawals, incompletes and the like carry none; they count neither
for a grade point average nor towards a minimum grade, so a withdrawal is not a failure.
-/

namespace DegreePlan

/-- A grade with points. -/
inductive Letter where
  | a
  | b
  | c
  | d
  | f
deriving DecidableEq, Inhabited

/-- A grade without points. -/
inductive Administrative where
  | withdrawn
  | incomplete
  | inProgress
  | satisfactory
  | unsatisfactory
deriving DecidableEq, Inhabited

/-- Any grade of the scale. -/
inductive Grade where
  | letter (letter : Letter)
  | administrative (grade : Administrative)
deriving DecidableEq, Inhabited

namespace Letter

/-- The points of a letter, from four to none. -/
def points : Letter → Nat
  | a => 4
  | b => 3
  | c => 2
  | d => 1
  | f => 0

/-- The letter as text. -/
def text : Letter → String
  | a => "A"
  | b => "B"
  | c => "C"
  | d => "D"
  | f => "F"

/-- The letter that is exactly this text. -/
def ofText? : String → Option Letter
  | "A" => some a
  | "B" => some b
  | "C" => some c
  | "D" => some d
  | "F" => some f
  | _ => none

/-- At or above a minimum. -/
def meets (earned minimum : Letter) : Bool := minimum.points ≤ earned.points

end Letter

namespace Administrative

/-- The grade as text. -/
def text : Administrative → String
  | withdrawn => "W"
  | incomplete => "I"
  | inProgress => "IP"
  | satisfactory => "S"
  | unsatisfactory => "U"

/-- The grade that is exactly this text. -/
def ofText? : String → Option Administrative
  | "W" => some withdrawn
  | "I" => some incomplete
  | "IP" => some inProgress
  | "S" => some satisfactory
  | "U" => some unsatisfactory
  | _ => none

end Administrative

/-- How a grade is compared: without blanks around it and in upper case. -/
def gradeKey (raw : Json) : String := Text.upper (Text.strip raw.asText)

/-- The letter that a value names, in any case. -/
def Letter.of? : Json → Option Letter
  | .null => none
  | raw => Letter.ofText? (gradeKey raw)

namespace Grade

/-- The grade as text. -/
def text : Grade → String
  | letter l => l.text
  | administrative g => g.text

/-- The letter, if the grade carries points. -/
def letter? : Grade → Option Letter
  | letter l => some l
  | administrative _ => none

/-- The grade as a value, null for none. -/
def toJson : Option Grade → Json
  | some g => .str g.text
  | none => .null

/-- Reads a grade: null and blank text are no grade, text that the scale does not know is a
    fault. -/
def read : Json → Except Fault (Option Grade)
  | .null => .ok none
  | raw =>
    let key := gradeKey raw
    if key.isEmpty then .ok none
    else match Letter.ofText? key, Administrative.ofText? key with
      | some l, _ => .ok (some (letter l))
      | none, some g => .ok (some (administrative g))
      | none, none => .error (.grade (.unknown raw))

end Grade

/-- A value reaches a minimum grade. No minimum is always reached, and a grade without points
    reaches none. -/
def meetsMinimum (grade minimum : Json) : Except Fault Bool :=
  match minimum with
  | .null => .ok true
  | _ =>
    match Letter.of? minimum with
    | none => .error (.grade (.minimumNotLetter minimum))
    | some required => .ok ((Letter.of? grade).elim false (·.meets required))

end DegreePlan
