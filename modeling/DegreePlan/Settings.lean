import DegreePlan.Json.Convert

/-!
# Settings

A setting is a text that may be absent. A text that is no number gives the default, and a number
below the minimum gives the minimum. The default is taken as it is.
-/

namespace DegreePlan.Settings

/-- The greater of the minimum and a number; the minimum where they cannot be ordered. -/
def atLeast (minimum value : Json) : Except Fault Json := do
  return if ← minimum.less value then value else minimum

/-- A setting that holds a real number. -/
def real (raw : Option String) (fallback : Json) (minimum : Json := .real 0.0) : Json :=
  match Number.readFloat? (raw.getD "") with
  | some x => (atLeast minimum (.real x)).toOption.getD fallback
  | none => fallback

/-- A setting that holds a whole number. -/
def whole (raw : Option String) (fallback : Json) (minimum : Json := .int 1) : Json :=
  match Number.readInteger (raw.getD "") with
  | .value n => (atLeast minimum (.int n)).toOption.getD fallback
  | _ => fallback

end DegreePlan.Settings
