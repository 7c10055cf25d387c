import DegreePlan.Text.Blank
import DegreePlan.Text.Digit

/-!
# Numbers read from text

Blanks around a number are skipped, digits may be of any script, and single underscores may stand
between digits. In a text of ASCII characters only the space, the tab and the line controls count as
blanks; in any other text every blank does.
-/

namespace DegreePlan.Number

open DegreePlan.Text

/-- Digits as ASCII digits and blanks as spaces, in a text that is not ASCII throughout. -/
def plain (cs : List Char) : List Char :=
  if cs.all (·.toNat < 0x80) then cs
  else cs.map fun c =>
    if isBlank c then ' '
    else match digitValue? c with
      | some v => Char.ofNat (0x30 + v)
      | none => c

/-- The blanks that a number may stand between. -/
def isSpacing (c : Char) : Bool :=
  let n := c.toNat
  n == 0x20 || (0x09 ≤ n && n ≤ 0x0D)

/-- The text of a number without the blanks around it. -/
def bare (s : String) : List Char :=
  dropEndWhile isSpacing ((plain s.toList).dropWhile isSpacing)

/-- An ASCII digit. -/
def isPlainDigit (c : Char) : Bool := '0' ≤ c && c ≤ '9'

/-- A sign and the rest. -/
def splitSign : List Char → Bool × List Char
  | '-' :: cs => (true, cs)
  | '+' :: cs => (false, cs)
  | cs => (false, cs)

/-- Removes the underscores if each stands between two digits. -/
def dropUnderscores? (afterDigit : Bool) : List Char → Option (List Char)
  | [] => some []
  | '_' :: c :: cs =>
    if afterDigit && isPlainDigit c then (dropUnderscores? true cs).map (c :: ·) else none
  | '_' :: [] => none
  | c :: cs => (dropUnderscores? (isPlainDigit c) cs).map (c :: ·)

/-- The longest integer text that is read. -/
def maxIntegerDigits : Nat := 4300

/-- What a text is as an integer. -/
inductive IntegerReading where
  | value (n : Int)
  | notInteger
  | tooLong (digits : Nat)

/-- Reads an integer. -/
def readInteger (s : String) : IntegerReading :=
  let (negative, body) := splitSign (bare s)
  match dropUnderscores? false body with
  | none => .notInteger
  | some digits =>
    if digits.isEmpty || !digits.all isPlainDigit then .notInteger
    else if maxIntegerDigits < digits.length then .tooLong digits.length
    else
      let n : Int := digitsToNat digits
      .value (if negative then -n else n)

/-- The float nearest to `digits · 10^exponent`. Beyond any float's range the answer is known
    without computing the power. -/
def floatOfDecimal (digits : Nat) (exponent : Int) : Float :=
  let size : Int := (toString digits).length
  if digits == 0 then 0.0
  else if 400 < size + exponent then 1.0 / 0.0
  else if size + exponent < -400 then 0.0
  else Float.ofScientific digits (exponent < 0) exponent.natAbs

/-- An optional exponent part that must end the text. -/
def readExponent? : List Char → Option Int
  | [] => some 0
  | c :: cs =>
    if c == 'e' || c == 'E' then
      let (negative, digits) := splitSign cs
      if digits.isEmpty || !digits.all isPlainDigit then none
      else
        let n : Int := digitsToNat digits
        some (if negative then -n else n)
    else none

/-- Reads an unsigned decimal with optional fraction and exponent. -/
def readDecimal? (cs : List Char) : Option Float :=
  let whole := cs.takeWhile isPlainDigit
  let rest := cs.dropWhile isPlainDigit
  let (fraction, rest) := match rest with
    | '.' :: more => (more.takeWhile isPlainDigit, more.dropWhile isPlainDigit)
    | _ => ([], rest)
  if whole.isEmpty && fraction.isEmpty then none
  else (readExponent? rest).map fun e =>
    floatOfDecimal (digitsToNat (whole ++ fraction)) (e - fraction.length)

/-- Reads a real number, an infinity or a missing number. -/
def readFloat? (s : String) : Option Float :=
  match dropUnderscores? false (bare s) with
  | none => none
  | some cs =>
    let (negative, body) := splitSign cs
    let name := String.ofList (body.map Char.toLower)
    let magnitude? :=
      if name == "inf" || name == "infinity" then some (1.0 / 0.0)
      else if name == "nan" then some (0.0 / 0.0)
      else readDecimal? body
    magnitude?.map fun x => if negative then -x else x

end DegreePlan.Number
