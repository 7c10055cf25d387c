import DegreePlan.Text.CaseTable
import DegreePlan.Text.WordTable

/-!
# Upper and lower case

Case mapping of whole texts. A character may become several, and a Greek sigma at the end of a word
has its own lower case.
-/

namespace DegreePlan.Text

/-- The upper case of one character. -/
def upperChar (c : Char) : List Char :=
  let n := c.toNat
  if n < 0x80 then [c.toUpper]
  else match upperLong.find? (·.1 == n) with
    | some (_, codes) => codes.map Char.ofNat
    | none => [(mapRuns? upperRuns n).elim c Char.ofNat]

/-- The lower case of one character that stands alone. -/
def lowerChar (c : Char) : List Char :=
  let n := c.toNat
  if n < 0x80 then [c.toLower]
  else if n == 0x130 then ['i', Char.ofNat 0x307]
  else [(mapRuns? lowerRuns n).elim c Char.ofNat]

/-- The next character that is not skipped is a letter. -/
def meetsLetter (cs : List Char) : Bool :=
  match cs.dropWhile isSkipped with
  | [] => false
  | c :: _ => isCased c

/-- Lower case from left to right; `before` holds what was read, nearest first. -/
def lowerFrom (before : List Char) : List Char → List Char
  | [] => []
  | c :: cs =>
    let here :=
      if c.toNat == 0x3A3 && meetsLetter before && !meetsLetter cs then [Char.ofNat 0x3C2]
      else lowerChar c
    here ++ lowerFrom (c :: before) cs

/-- Text in upper case. -/
def upper (s : String) : String := String.ofList (s.toList.flatMap upperChar)

/-- Text in lower case. -/
def lower (s : String) : String := String.ofList (lowerFrom [] s.toList)

/-- Upper case for the first character, lower case for the others. -/
def capitalize (s : String) : String :=
  match s.toList with
  | [] => ""
  | c :: cs => String.ofList (upperChar c ++ lowerFrom [c] cs)

/-- The ASCII letter, in lower case, that a character stands for when case is ignored: itself, or
    the dotted and dotless i, the long s and the Kelvin sign. -/
def foldLetter (c : Char) : Char :=
  let n := c.toNat
  if n == 0x130 || n == 0x131 then 'i'
  else if n == 0x17F then 's'
  else if n == 0x212A then 'k'
  else c.toLower

/-- Removes `word`, given in lower case, from the front when case is ignored. -/
def afterWord? (word : List Char) (cs : List Char) : Option (List Char) :=
  match word, cs with
  | [], cs => some cs
  | _ :: _, [] => none
  | w :: ws, c :: cs => if foldLetter c == w then afterWord? ws cs else none

theorem length_afterWord?_le {word cs rest : List Char} (h : afterWord? word cs = some rest) :
    rest.length ≤ cs.length := by
  induction word generalizing cs with
  | nil => simp [afterWord?] at h; simp [h]
  | cons w ws ih =>
    cases cs with
    | nil => simp [afterWord?] at h
    | cons c cs =>
      simp only [afterWord?] at h
      split at h
      · have := ih h
        simp only [List.length_cons]
        omega
      · cases h

end DegreePlan.Text
