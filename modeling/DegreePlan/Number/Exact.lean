/-!
# Floats taken apart

A finite float is a whole number times a power of two. Conversions between floats and integers and
comparisons between them go through this exact value, so they never round twice.
-/

namespace DegreePlan.Number

/-- A float as sign, whole number and power of two. -/
inductive Parts where
  | nan
  | infinite (negative : Bool)
  | finite (negative : Bool) (mantissa : Nat) (exponent : Int)
deriving DecidableEq

/-- Reads the sign, the exponent and the fraction from the bits. -/
def parts (x : Float) : Parts :=
  let bits := x.toBits.toNat
  let negative := bits / Nat.pow 2 63 == 1
  let exponent : Nat := bits / Nat.pow 2 52 % Nat.pow 2 11
  let fraction : Nat := bits % Nat.pow 2 52
  if exponent == 2047 then
    if fraction == 0 then .infinite negative else .nan
  else if exponent == 0 then .finite negative fraction (-1074)
  else .finite negative (Nat.pow 2 52 + fraction) ((exponent : Int) - 1075)

/-- The exact value of a finite float as numerator and denominator. -/
def fraction? (x : Float) : Option (Int × Nat) :=
  match parts x with
  | .finite negative m e =>
    let n : Nat := if 0 ≤ e then m * Nat.pow 2 e.toNat else m
    some (if negative then -n else n, if 0 ≤ e then 1 else Nat.pow 2 (-e).toNat)
  | _ => none

/-- The whole part of a finite float, its fraction cut off. -/
def truncate? (x : Float) : Option Int :=
  (fraction? x).map fun (n, d) => n.tdiv d

/-- The integer that a float equals. -/
def integer? (x : Float) : Option Int :=
  match fraction? x with
  | some (n, d) => if n % d == 0 then some (n / d) else none
  | none => none

/-- The nearest float, unless the integer is too large for one. -/
def floatOfInt? (n : Int) : Option Float :=
  let x := Float.ofInt n
  if x.isInf then none else some x

end DegreePlan.Number
