import DegreePlan.Json.Convert
import DegreePlan.Text.Blank
import DegreePlan.Text.Case
import DegreePlan.Text.Digit

/-!
# Course codes

A course code names a department and a number, as in `CS 1331` or `ECE 2020L`. Codes are compared
as texts, so every code that comes from outside is first brought into this form: two to five
letters in upper case, one space, four digits and at most one letter.
-/

namespace DegreePlan.Course

open DegreePlan.Text

/-- A letter of a department or of a course number. -/
def isLetter (c : Char) : Bool := ('a' ≤ c && c ≤ 'z') || ('A' ≤ c && c ≤ 'Z')

/-- Splits the department off: all letters in front, of which there must be two to five. -/
def splitDepartment? (cs : List Char) : Option (List Char × List Char) :=
  let letters := cs.takeWhile isLetter
  if 2 ≤ letters.length && letters.length ≤ 5 then some (letters, cs.dropWhile isLetter) else none

/-- Drops what may stand between department and number: blanks around at most one hyphen or
    underscore. -/
def dropSeparator (cs : List Char) : List Char :=
  match cs.dropWhile isBlank with
  | [] => []
  | c :: rest => if c == '-' || c == '_' then rest.dropWhile isBlank else c :: rest

/-- A course number: four digits and at most one letter. -/
def isNumber (cs : List Char) : Bool :=
  match cs with
  | [a, b, c, d] => [a, b, c, d].all isDigit
  | [a, b, c, d, e] => [a, b, c, d].all isDigit && isLetter e
  | _ => false

/-- The code in a text without blanks around it. -/
def codeOfChars? (cs : List Char) : Option (List Char) :=
  match splitDepartment? cs with
  | none => none
  | some (department, rest) =>
    let number := dropSeparator rest
    if isNumber number then some (department.map Char.toUpper ++ ' ' :: number.map Char.toUpper)
    else none

/-- The code that a text holds. -/
def codeOfText? (s : String) : Option String :=
  (codeOfChars? (trim s.toList)).map String.ofList

/-- The code that a value holds. -/
def code? (raw : Json) : Option String :=
  if raw.isBlank then none else codeOfText? raw.asText

/-- Every code once, where it stands first. -/
def distinct (codes : List String) : List String :=
  codes.foldl (fun kept code => if kept.contains code then kept else kept ++ [code]) []

/-- Commas, semicolons and line ends separate the codes of a text. -/
def isListMark (c : Char) : Bool := c == ',' || c == '\n' || c == ';'

/-- The codes of a text, in order and without repetitions; other pieces are dropped. -/
def codesOfText (s : String) : List String :=
  distinct ((cutAt isListMark s.toList).filterMap fun piece => codeOfText? (String.ofList piece))

/-- The codes of a text or of the parts of a value, in order and without repetitions. -/
def codeList : Json → Except Fault (List String)
  | .null => .ok []
  | .str s => .ok (codesOfText s)
  | v => do return distinct ((← v.parts).filterMap code?)

end DegreePlan.Course
