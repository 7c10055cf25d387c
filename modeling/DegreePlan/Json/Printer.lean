import DegreePlan.Json.Basic
import DegreePlan.Number.Literal
import DegreePlan.Number.Shortest
import DegreePlan.Text.Quoted

/-!
# Writing values

The written form of a value on one line. Control characters in texts are escaped, all other
characters stand for themselves. Floats are written with the fewest digits that read back. A whole number with
more digits than are read is not written at all.
-/

namespace DegreePlan.Json

/-- One character of a text between double quotes. -/
def escapeChar (c : Char) : List Char :=
  if c == '\x22' || c == '\\' then ['\\', c]
  else if c == '\n' then ['\\', 'n']
  else if c == '\r' then ['\\', 'r']
  else if c == '\t' then ['\\', 't']
  else if c.toNat < 0x20 then '\\' :: 'u' :: Text.hex 4 c.toNat
  else [c]

/-- A text between double quotes. -/
def printText (s : String) : String :=
  String.ofList ('\x22' :: s.toList.flatMap escapeChar ++ ['\x22'])

/-- A float; the three that are no numbers have names. -/
def printReal (x : Float) : String :=
  match Number.parts x with
  | .nan => "NaN"
  | .infinite negative => if negative then "-Infinity" else "Infinity"
  | .finite .. => Number.floatText x

mutual

/-- The value can be written: none of its whole numbers has more digits than are written. -/
def isWritable : Json → Bool
  | int n => n.natAbs < Nat.pow 10 Number.maxIntegerDigits
  | arr items => areWritable items
  | obj fields => fieldsWritable fields
  | _ => true

/-- The items of a list can be written. -/
def areWritable : List Json → Bool
  | [] => true
  | v :: vs => v.isWritable && areWritable vs

/-- The values of fields can be written. -/
def fieldsWritable : List (String × Json) → Bool
  | [] => true
  | (_, v) :: rest => v.isWritable && fieldsWritable rest

end

mutual

/-- The value on one line. -/
def print : Json → String
  | null => "null"
  | bool b => if b then "true" else "false"
  | int n => toString n
  | real x => printReal x
  | str s => printText s
  | arr items => "[" ++ ", ".intercalate (printItems items) ++ "]"
  | obj fields => "\x7b" ++ ", ".intercalate (printFields fields) ++ "\x7d"

/-- The items of a list. -/
def printItems : List Json → List String
  | [] => []
  | v :: vs => print v :: printItems vs

/-- The fields of an object. -/
def printFields : List (String × Json) → List String
  | [] => []
  | (n, v) :: rest => (printText n ++ ": " ++ print v) :: printFields rest

end

end DegreePlan.Json
