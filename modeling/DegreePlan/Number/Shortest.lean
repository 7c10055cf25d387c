import DegreePlan.Number.Exact

/-!
# The shortest decimal of a float

A float is written with the fewest decimal digits that read back as the same float; of two such
decimals with equally many digits the nearer one is taken, and of two equally near ones the even.

The decimals that read back lie between the midpoints to the two neighbouring floats. On the grid
of decimals with a given number of digits only the two grid points around the value can be the
nearest that lie there, so these two are tried for one digit, two digits and so on. Seventeen
digits always suffice.
-/

namespace DegreePlan.Number

/-- A positive value `value / scale` with the bounds of the decimals that read back as it. -/
structure Interval where
  low : Nat
  value : Nat
  high : Nat
  scale : Nat
  /-- The bounds themselves read back as the value. -/
  closed : Bool

/-- The interval of the float `mantissa · 2^exponent`. The lower neighbour is nearer where the
    exponent changes. -/
def Interval.ofParts (mantissa : Nat) (exponent : Int) : Interval :=
  let below := if mantissa == Nat.pow 2 52 && exponent != -1074 then 1 else 2
  let up := if 2 ≤ exponent then Nat.pow 2 (exponent - 2).toNat else 1
  { low := (4 * mantissa - below) * up
    value := 4 * mantissa * up
    high := (4 * mantissa + 2) * up
    scale := if 2 ≤ exponent then 1 else Nat.pow 2 (2 - exponent).toNat
    closed := mantissa % 2 == 0 }

/-- `n · 10^e / d` for the exponent `e`, as numerator and denominator. -/
def scaled (n d : Nat) (e : Int) : Nat × Nat :=
  if 0 ≤ e then (n * Nat.pow 10 e.toNat, d) else (n, d * Nat.pow 10 (-e).toNat)

/-- The decimal `digits · 10^exponent` reads back. -/
def Interval.contains (i : Interval) (digits : Nat) (exponent : Int) : Bool :=
  let (n, d) := scaled digits 1 exponent
  if i.closed then i.low * d ≤ n * i.scale && n * i.scale ≤ i.high * d
  else i.low * d < n * i.scale && n * i.scale < i.high * d

/-- The power of ten of the first digit: the greatest `k ≤ start` with `10^k ≤ n / d`, searched
    downwards for at most `fuel` steps. -/
def magnitudeFrom (n d : Nat) : Nat → Int → Int
  | 0, k => k
  | fuel + 1, k =>
    let (p, q) := scaled 1 1 k
    if p * d ≤ n * q then k else magnitudeFrom n d fuel (k - 1)

/-- Nearly the decimal logarithm of a number. -/
def roughLog (n : Nat) : Int := (Nat.log2 n : Int) * 30103 / 100000

/-- The power of ten of the first digit of `n / d`. -/
def magnitude (n d : Nat) : Int := magnitudeFrom n d 4 (roughLog n - roughLog d + 2)

/-- The best decimal on the grid of multiples of `10^exponent`, if one reads back. -/
def Interval.onGrid? (i : Interval) (exponent : Int) : Option Nat :=
  let (n, d) := scaled i.value i.scale (-exponent)
  let lower := n / d
  let gap := n % d
  match i.contains lower exponent, i.contains (lower + 1) exponent with
  | true, true =>
    if 2 * gap < d || (2 * gap == d && lower % 2 == 0) then some lower else some (lower + 1)
  | true, false => some lower
  | false, true => some (lower + 1)
  | false, false => none

/-- Tries `left` grids from the coarse to the fine and gives digits and exponent. -/
def Interval.search (i : Interval) : Nat → Int → Nat × Int
  | 0, e => (i.value * Nat.pow 10 (-e).toNat / i.scale, e)
  | left + 1, e =>
    match i.onGrid? e with
    | some digits => (digits, e)
    | none => i.search left (e - 1)

/-- Drops trailing zeros of `digits · 10^exponent`. -/
def dropZeros : Nat → Nat → Int → Nat × Int
  | 0, digits, e => (digits, e)
  | fuel + 1, digits, e =>
    if digits != 0 && digits % 10 == 0 then dropZeros fuel (digits / 10) (e + 1) else (digits, e)

/-- The shortest decimal `digits · 10^exponent` of a positive float. -/
def shortest (mantissa : Nat) (exponent : Int) : Nat × Int :=
  let i := Interval.ofParts mantissa exponent
  let (digits, e) := i.search 17 (magnitude i.value i.scale)
  dropZeros 20 digits e

/-! ## Layout -/

/-- The exponent after `e`: signed, two digits or more. -/
def exponentText (e : Int) : String :=
  let digits := toString e.natAbs
  let digits := if digits.length < 2 then "0" ++ digits else digits
  (if e < 0 then "e-" else "e+") ++ digits

/-- Digits with their decimal point: written in full while the first digit stands between `10^-4`
    and `10^15`, with an exponent otherwise. -/
def layout (digits : Nat) (exponent : Int) : String :=
  let ds := (toString digits).toList
  let first := exponent + ds.length - 1
  if first < -4 || 16 ≤ first then
    match ds with
    | [] => "0"
    | [d] => String.ofList [d] ++ exponentText first
    | d :: rest => String.ofList (d :: '.' :: rest) ++ exponentText first
  else if 0 ≤ exponent then
    String.ofList (ds ++ List.replicate exponent.toNat '0') ++ ".0"
  else if 0 ≤ first then
    let whole := first.toNat + 1
    String.ofList (ds.take whole ++ '.' :: ds.drop whole)
  else
    String.ofList ('0' :: '.' :: List.replicate ((-first).toNat - 1) '0' ++ ds)

/-- A float as text. -/
def floatText (x : Float) : String :=
  match parts x with
  | .nan => "nan"
  | .infinite negative => if negative then "-inf" else "inf"
  | .finite negative m e =>
    let body := if m == 0 then "0.0" else
      let (digits, exponent) := shortest m e
      layout digits exponent
    if negative then "-" ++ body else body

end DegreePlan.Number
