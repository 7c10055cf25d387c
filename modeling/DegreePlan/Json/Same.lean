import DegreePlan.Json.Basic

/-!
# Equality of values

Numbers are compared by value, so one, `1.0` and true are the same number. The order of an object's
fields does not count. Two values are the same when their canonical forms are equal: numbers in
integer form where that is possible, and fields sorted by name.

What is not a number is the same as itself, and so it is found in a list that holds it. But it does
not compare equal to anything, itself included.
-/

namespace DegreePlan.Json

mutual

/-- Decides equality. -/
def decideEq : (a b : Json) → Decidable (a = b)
  | null, null => isTrue rfl
  | bool a, bool b => if h : a = b then isTrue (h ▸ rfl) else isFalse fun e => h (Json.bool.inj e)
  | int a, int b => if h : a = b then isTrue (h ▸ rfl) else isFalse fun e => h (Json.int.inj e)
  | real a, real b => if h : a = b then isTrue (h ▸ rfl) else isFalse fun e => h (Json.real.inj e)
  | str a, str b => if h : a = b then isTrue (h ▸ rfl) else isFalse fun e => h (Json.str.inj e)
  | arr a, arr b =>
    match decideEqItems a b with
    | isTrue h => isTrue (h ▸ rfl)
    | isFalse h => isFalse fun e => h (Json.arr.inj e)
  | obj a, obj b =>
    match decideEqFields a b with
    | isTrue h => isTrue (h ▸ rfl)
    | isFalse h => isFalse fun e => h (Json.obj.inj e)
  | null, bool _ | null, int _ | null, real _ | null, str _ | null, arr _ | null, obj _
  | bool _, null | bool _, int _ | bool _, real _ | bool _, str _ | bool _, arr _ | bool _, obj _
  | int _, null | int _, bool _ | int _, real _ | int _, str _ | int _, arr _ | int _, obj _
  | real _, null | real _, bool _ | real _, int _ | real _, str _ | real _, arr _ | real _, obj _
  | str _, null | str _, bool _ | str _, int _ | str _, real _ | str _, arr _ | str _, obj _
  | arr _, null | arr _, bool _ | arr _, int _ | arr _, real _ | arr _, str _ | arr _, obj _
  | obj _, null | obj _, bool _ | obj _, int _ | obj _, real _ | obj _, str _ | obj _, arr _ =>
    isFalse nofun

/-- Decides equality of lists of values. -/
def decideEqItems : (a b : List Json) → Decidable (a = b)
  | [], [] => isTrue rfl
  | [], _ :: _ => isFalse nofun
  | _ :: _, [] => isFalse nofun
  | a :: as, b :: bs =>
    match decideEq a b, decideEqItems as bs with
    | isTrue h, isTrue t => isTrue (h ▸ t ▸ rfl)
    | isFalse h, _ => isFalse fun e => h (List.cons.inj e).1
    | _, isFalse t => isFalse fun e => t (List.cons.inj e).2

/-- Decides equality of field lists. -/
def decideEqFields : (a b : List (String × Json)) → Decidable (a = b)
  | [], [] => isTrue rfl
  | [], _ :: _ => isFalse nofun
  | _ :: _, [] => isFalse nofun
  | (m, a) :: as, (n, b) :: bs =>
    if hn : m = n then
      match decideEq a b, decideEqFields as bs with
      | isTrue h, isTrue t => isTrue (hn ▸ h ▸ t ▸ rfl)
      | isFalse h, _ => isFalse fun e => h (Prod.mk.inj (List.cons.inj e).1).2
      | _, isFalse t => isFalse fun e => t (List.cons.inj e).2
    else isFalse fun e => hn (Prod.mk.inj (List.cons.inj e).1).1

end

instance : DecidableEq Json := decideEq

mutual

/-- The canonical form. -/
def canonical : Json → Json
  | null => null
  | bool b => int (if b then 1 else 0)
  | int n => int n
  | real x => match Number.integer? x with
    | some n => int n
    | none => real x
  | str s => str s
  | arr items => arr (canonicalItems items)
  | obj fields => obj ((canonicalFields fields).mergeSort fun a b => decide (a.1 ≤ b.1))

/-- The canonical forms of a list's items. -/
def canonicalItems : List Json → List Json
  | [] => []
  | v :: vs => canonical v :: canonicalItems vs

/-- The canonical forms of the values of fields. -/
def canonicalFields : List (String × Json) → List (String × Json)
  | [] => []
  | (n, v) :: rest => (n, canonical v) :: canonicalFields rest

end

/-- The two are the same value. -/
def same (a b : Json) : Bool := decide (a.canonical = b.canonical)

/-- The value is the real number that is not a number. -/
def isNaN : Json → Bool
  | real x => match Number.parts x with
    | .nan => true
    | _ => false
  | _ => false

/-- The two compare equal. -/
def equals (a b : Json) : Bool := !a.isNaN && a.same b

/-- Some value of the list is the same as `v`. -/
def isIn (v : Json) (values : List Json) : Bool := values.any (same v)

/-- Every value once, where it stands first. -/
def distinct (values : List Json) : List Json :=
  values.foldl (fun kept v => if isIn v kept then kept else kept ++ [v]) []

theorem same_iff {a b : Json} : same a b = true ↔ a.canonical = b.canonical := by
  simp [same]

@[simp] theorem same_refl (a : Json) : same a a = true := same_iff.2 rfl

theorem same_comm (a b : Json) : same a b = same b a := by
  simp [same, eq_comm]

theorem equals_iff {a b : Json} : a.equals b = true ↔ a.isNaN = false ∧ a.same b = true := by
  simp [equals]

theorem same_trans {a b c : Json} (h : same a b = true) (k : same b c = true) :
    same a c = true :=
  same_iff.2 ((same_iff.1 h).trans (same_iff.1 k))

end DegreePlan.Json
