import DegreePlan.Json.Basic
import DegreePlan.Number.Literal

/-!
# Reading values

A text is read as one value with spaces, tabs and line ends allowed around every part. The names
`NaN`, `Infinity` and `-Infinity` are accepted as floats. Of two fields of one name the later value
counts, in the place of the earlier. Half of a surrogate pair is read as the replacement character.
-/

namespace DegreePlan.Json

open DegreePlan.Text (hexValue?)

/-- What a reader found and the characters after it. -/
abbrev Reading (α : Type) := Option (α × List Char)

/-- Drops the characters that may stand between parts. -/
def skipSpace (cs : List Char) : List Char :=
  cs.dropWhile fun c => c == ' ' || c == '\t' || c == '\n' || c == '\r'

/-- The number that four hexadecimal digits stand for. -/
def unit? (a b c d : Char) : Option Nat := do
  let a ← hexValue? a
  let b ← hexValue? b
  let c ← hexValue? c
  let d ← hexValue? d
  return ((a * 16 + b) * 16 + c) * 16 + d

/-- A first half of a surrogate pair. -/
def isHighUnit (n : Nat) : Bool := 0xD800 ≤ n && n < 0xDC00

/-- A second half of a surrogate pair. -/
def isLowUnit (n : Nat) : Bool := 0xDC00 ≤ n && n < 0xE000

/-- The character of one unit. -/
def charOfUnit (n : Nat) : Char :=
  if isHighUnit n || isLowUnit n then Char.ofNat 0xFFFD else Char.ofNat n

/-- The character after a backslash, except for `u`. -/
def escaped? : Char → Option Char
  | '\x22' => some '\x22'
  | '\\' => some '\\'
  | '/' => some '/'
  | 'b' => some '\x08'
  | 'f' => some '\x0c'
  | 'n' => some '\n'
  | 'r' => some '\r'
  | 't' => some '\t'
  | _ => none

/-- A text up to its closing quote. `high` is a first half that waits for its second. -/
def readText (high : Option Nat) (cs : List Char) : Reading (List Char) :=
  let pending : List Char := match high with
    | some _ => [Char.ofNat 0xFFFD]
    | none => []
  match cs with
  | [] => none
  | '\x22' :: rest => some (pending, rest)
  | '\\' :: 'u' :: a :: b :: c :: d :: rest =>
    match unit? a b c d with
    | none => none
    | some n =>
      match high with
      | some h =>
        if isLowUnit n then
          (readText none rest).map fun (s, r) =>
            (Char.ofNat (0x10000 + (h - 0xD800) * 0x400 + (n - 0xDC00)) :: s, r)
        else if isHighUnit n then (readText (some n) rest).map fun (s, r) => (pending ++ s, r)
        else (readText none rest).map fun (s, r) => (pending ++ charOfUnit n :: s, r)
      | none =>
        if isHighUnit n then readText (some n) rest
        else (readText none rest).map fun (s, r) => (charOfUnit n :: s, r)
  | '\\' :: c :: rest =>
    match escaped? c with
    | none => none
    | some e => (readText none rest).map fun (s, r) => (pending ++ e :: s, r)
  | c :: rest =>
    if c.toNat < 0x20 || c == '\\' then none
    else (readText none rest).map fun (s, r) => (pending ++ c :: s, r)

/-- The digits in front and the rest. -/
def splitDigits (cs : List Char) : List Char × List Char :=
  (cs.takeWhile Number.isPlainDigit, cs.dropWhile Number.isPlainDigit)

/-- A fraction with at least one digit, if one follows. -/
def splitFraction (cs : List Char) : List Char × List Char :=
  match cs with
  | '.' :: rest =>
    let (digits, rest) := splitDigits rest
    if digits.isEmpty then ([], cs) else ('.' :: digits, rest)
  | _ => ([], cs)

/-- An exponent with at least one digit, if one follows. -/
def splitExponent (cs : List Char) : List Char × List Char :=
  match cs with
  | c :: rest =>
    if c == 'e' || c == 'E' then
      let (sign, rest) := match rest with
        | '-' :: more => (['-'], more)
        | '+' :: more => (['+'], more)
        | _ => ([], rest)
      let (digits, rest) := splitDigits rest
      if digits.isEmpty then ([], cs) else (c :: sign ++ digits, rest)
    else ([], cs)
  | [] => ([], cs)

/-- A number without its sign: no leading zeros, a float if it has a fraction or an exponent. -/
def readNumber (negative : Bool) (cs : List Char) : Reading Json :=
  let (whole, rest) := match cs with
    | '0' :: rest => (['0'], rest)
    | _ => splitDigits cs
  if whole.isEmpty then none
  else
    let (fraction, rest) := splitFraction rest
    let (exponent, rest) := splitExponent rest
    let literal := String.ofList ((if negative then ['-'] else []) ++ whole ++ fraction ++ exponent)
    if fraction.isEmpty && exponent.isEmpty then
      match Number.readInteger literal with
      | .value n => some (.int n, rest)
      | _ => none
    else (Number.readFloat? literal).map fun x => (.real x, rest)

/-- The part after `word`, if the text starts with it. -/
def afterWord? : List Char → List Char → Option (List Char)
  | [], cs => some cs
  | w :: ws, c :: cs => if w == c then afterWord? ws cs else none
  | _ :: _, [] => none

/-- A value that is no text, list or object. -/
def readScalar (cs : List Char) : Reading Json :=
  match cs with
  | 'n' :: _ => (afterWord? "null".toList cs).map (.null, ·)
  | 't' :: _ => (afterWord? "true".toList cs).map (.bool true, ·)
  | 'f' :: _ => (afterWord? "false".toList cs).map (.bool false, ·)
  | 'N' :: _ => (afterWord? "NaN".toList cs).map (.real (0.0 / 0.0), ·)
  | 'I' :: _ => (afterWord? "Infinity".toList cs).map (.real (1.0 / 0.0), ·)
  | '-' :: 'I' :: _ => (afterWord? "-Infinity".toList cs).map (.real (-(1.0 / 0.0)), ·)
  | '-' :: rest => readNumber true rest
  | _ => readNumber false cs

/-- The name of a field with its colon. -/
def readName : List Char → Reading String
  | '\x22' :: rest =>
    (readText none rest).bind fun (name, rest) =>
      match skipSpace rest with
      | ':' :: rest => some (String.ofList name, skipSpace rest)
      | _ => none
  | _ => none

mutual

/-- One value; every part takes a unit of `fuel`. -/
def readValue : Nat → List Char → Reading Json
  | 0, _ => none
  | fuel + 1, cs =>
    match cs with
    | '\x22' :: rest => (readText none rest).map fun (s, r) => (.str (String.ofList s), r)
    | '[' :: rest =>
      match skipSpace rest with
      | ']' :: rest => some (.arr [], rest)
      | rest => (readItems fuel rest).map fun (items, r) => (.arr items, r)
    | '\x7b' :: rest =>
      match skipSpace rest with
      | '\x7d' :: rest => some (.obj [], rest)
      | rest => (readFields fuel [] rest).map fun (fields, r) => (.obj fields, r)
    | _ => readScalar cs

/-- One item or more up to the closing bracket. -/
def readItems : Nat → List Char → Reading (List Json)
  | 0, _ => none
  | fuel + 1, cs =>
    (readValue fuel cs).bind fun (v, rest) =>
    match skipSpace rest with
    | ',' :: rest => (readItems fuel (skipSpace rest)).map fun (vs, r) => (v :: vs, r)
    | ']' :: rest => some ([v], rest)
    | _ => none

/-- One field or more up to the closing brace, added to the fields `known`. -/
def readFields : Nat → List (String × Json) → List Char → Reading (List (String × Json))
  | 0, _, _ => none
  | fuel + 1, known, cs =>
    (readName cs).bind fun (name, rest) =>
    (readValue fuel rest).bind fun (v, rest) =>
    let known := put name v known
    match skipSpace rest with
    | ',' :: rest => readFields fuel known (skipSpace rest)
    | '\x7d' :: rest => some (known, rest)
    | _ => none

end

/-- Reads a text as one value. -/
def parse? (s : String) : Option Json :=
  let cs := s.toList
  match readValue (2 * cs.length + 2) (skipSpace cs) with
  | some (v, rest) => if (skipSpace rest).isEmpty then some v else none
  | none => none

end DegreePlan.Json
