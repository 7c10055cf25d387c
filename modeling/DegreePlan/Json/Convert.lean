import DegreePlan.Fault
import DegreePlan.Json.Same
import DegreePlan.Number.Literal

/-!
# Values as numbers, keys and lists

Conversions that callers use on values of unknown kind, each with the fault that says why a value
does not fit.
-/

namespace DegreePlan.Json

/-- The integer that a value stands for: numbers lose their fraction, texts are read. -/
def toInteger : Json → Except Fault Int
  | bool b => .ok (if b then 1 else 0)
  | int n => .ok n
  | real x =>
    match Number.parts x with
    | .nan => .error (.value .nanAsInteger)
    | .infinite _ => .error (.value .infinityAsInteger)
    | .finite .. => .ok ((Number.truncate? x).getD 0)
  | str s =>
    match Number.readInteger s with
    | .value n => .ok n
    | .notInteger => .error (.value (.notAnInteger s))
    | .tooLong digits => .error (.value (.integerTooLong digits))
  | v => .error (.value (.notANumber v.kindName))

/-- The float that a value stands for: whole numbers are rounded, texts are read. -/
def toReal : Json → Except Fault Float
  | bool b => .ok (if b then 1.0 else 0.0)
  | int n =>
    match Number.floatOfInt? n with
    | some x => .ok x
    | none => .error (.value .integerTooLargeForFloat)
  | real x => .ok x
  | str s =>
    match Number.readFloat? s with
    | some x => .ok x
    | none => .error (.value (.notAReal s))
  | v => .error (.value (.notANumber v.kindName))

/-- Refuses a value that cannot be a member of a set. -/
def checkKey (v : Json) : Except Fault Unit :=
  if v.isKey then .ok () else .error (.value (.notAKey v.kindName))

/-- The parts of a value: the items of a list, the field names of an object, the characters of a
    text. -/
def parts : Json → Except Fault (List Json)
  | arr items => .ok items
  | obj fields => .ok (fields.map fun (name, _) => .str name)
  | str s => .ok (s.toList.map fun c => .str (String.singleton c))
  | v => .error (.value (.notAList v.kindName))

/-- The fields of a value that must be an object. -/
def record (v : Json) : Except Fault (List (String × Json)) :=
  match v.fields? with
  | some fields => .ok fields
  | none => .error (.value (.notAnObject v.kindName))

/-- A field that must be there. -/
def need (fields : List (String × Json)) (name : String) : Except Fault Json :=
  match fields.lookup name with
  | some v => .ok v
  | none => .error (.value (.missing name))

/-! ## Order -/

/-- The place of a number among all numbers. -/
inductive Place where
  | below
  | at (numerator : Int) (denominator : Nat)
  | above
  | nowhere

/-- The place of a number; truth values count as one and zero. -/
def place? : Json → Option Place
  | bool b => some (.at (if b then 1 else 0) 1)
  | int n => some (.at n 1)
  | real x =>
    match Number.parts x, Number.fraction? x with
    | .infinite negative, _ => some (if negative then .below else .above)
    | _, some (n, d) => some (.at n d)
    | _, none => some .nowhere
  | _ => none

/-- One place is strictly below the other. -/
def Place.less : Place → Place → Bool
  | .nowhere, _ => false
  | _, .nowhere => false
  | .below, .below => false
  | .below, _ => true
  | .above, _ => false
  | .at _ _, .below => false
  | .at _ _, .above => true
  | .at a b, .at c d => a * d < c * b

/-- One value is strictly below the other. Texts are compared with texts and numbers with
    numbers. -/
def less (a b : Json) : Except Fault Bool :=
  match a, b with
  | str s, str t => .ok (decide (s < t))
  | _, _ =>
    match a.place?, b.place? with
    | some p, some q => .ok (p.less q)
    | _, _ => .error (.value (.notComparable a.kindName b.kindName))

/-- Sorts by a key, equal keys in their order; two values or more must be comparable. -/
def sortBy {α : Type} (key : α → Json) (items : List α) : Except Fault (List α) :=
  match items with
  | [] => .ok []
  | [a] => .ok [a]
  | first :: rest => do
    for x in rest do
      discard (less (key first) (key x))
    return items.mergeSort fun a b => !((less (key b) (key a)).toOption.getD false)

end DegreePlan.Json
