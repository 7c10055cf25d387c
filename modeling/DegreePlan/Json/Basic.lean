import DegreePlan.Number.Exact

/-!
# Values

A value is null, a truth value, a number, a text, a list or an object. Whole numbers are exact and
unbounded, the others are floats. An object keeps its fields in the order in which they were first
given, each name once.
-/

namespace DegreePlan

/-- A value as requests, stored plans and catalog cells hold it. -/
inductive Json where
  | null
  | bool (value : Bool)
  | int (value : Int)
  | real (value : Float)
  | str (value : String)
  | arr (items : List Json)
  | obj (fields : List (String × Json))
deriving Inhabited

namespace Json

/-- Says nothing: null, false, zero, the empty text, the empty list and the empty object. -/
def isBlank : Json → Bool
  | null => true
  | bool b => !b
  | int n => n == 0
  | real x => x == 0.0
  | str s => s.isEmpty
  | arr items => items.isEmpty
  | obj fields => fields.isEmpty

/-- The value itself unless it is blank. -/
def orElse (v fallback : Json) : Json := if v.isBlank then fallback else v

/-- Lists and objects cannot be members of a set. -/
def isKey : Json → Bool
  | arr _ => false
  | obj _ => false
  | _ => true

/-- The fields of an object. -/
def fields? : Json → Option (List (String × Json))
  | obj fields => some fields
  | _ => none

/-- The text of a text. -/
def text? : Json → Option String
  | str s => some s
  | _ => none

/-- Sets a field: in place if the name is there, at the end otherwise. -/
def put (name : String) (v : Json) : List (String × Json) → List (String × Json)
  | [] => [(name, v)]
  | (n, w) :: rest => if n == name then (n, v) :: rest else (n, w) :: put name v rest

/-- The field of a name, null if there is none. -/
def fieldOf (fields : List (String × Json)) (name : String) : Json :=
  (fields.lookup name).getD .null

end Json
end DegreePlan
