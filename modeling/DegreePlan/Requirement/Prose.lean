import DegreePlan.Requirement.Basic

/-!
# Requirements in prose

A catalog cell describes prerequisites in a small language. Semicolons separate clauses that must
all be met, `or` separates the alternatives of a clause, and a course may carry a minimum grade, as
in `CS 1301 Minimum Grade of C` or `CS 1301 (min C)`. Other remarks in parentheses are dropped. A
text such as `Two courses from: A or B or C` asks for several courses of a list. Whatever speaks of
permissions, placements or corequisites is refused.
-/

namespace DegreePlan.Requirement.Prose

open DegreePlan.Text

/-- Texts that say that nothing is required. -/
def nothing : List String := ["none", "none listed", "n/a", "nan", ""]

/-- Words of requirements that a tree cannot express. -/
def unsupportedWords : List String :=
  ["permission", "standing", "instructor", "consent", "admitted", "placement", "co-req", "coreq"]

/-! ## Alternatives -/

/-- The text after `or` and the blanks behind it, of which there must be one at least. -/
def afterOr? (cs : List Char) : Option (List Char) :=
  match afterWord? ['o', 'r'] cs with
  | some (c :: rest) => if isBlank c then some (rest.dropWhile isBlank) else none
  | _ => none

/-- The text after blanks, `or` and blanks. -/
def afterSpacedOr? (cs : List Char) : Option (List Char) :=
  match cs with
  | c :: _ => if isBlank c then afterOr? (cs.dropWhile isBlank) else none
  | [] => none

theorem length_afterOr?_lt {cs rest : List Char} (h : afterOr? cs = some rest) :
    rest.length < cs.length := by
  unfold afterOr? at h
  split at h
  · rename_i c r heq
    split at h
    · injection h with h
      have h₁ := length_afterWord?_le heq
      have h₂ := length_dropWhile_le isBlank r
      simp only [List.length_cons] at h₁
      rw [← h]
      omega
    · cases h
  · cases h

theorem length_afterSpacedOr?_lt {cs rest : List Char} (h : afterSpacedOr? cs = some rest) :
    rest.length < cs.length := by
  unfold afterSpacedOr? at h
  split at h
  · split at h
    · exact Nat.lt_of_lt_of_le (length_afterOr?_lt h) (length_dropWhile_le isBlank _)
    · cases h
  · cases h

/-- Cuts at every `or` between blanks and, if `commas` is set, at every comma. -/
def alternatives (commas : Bool) (cs : List Char) : List (List Char) :=
  match _h : afterSpacedOr? cs with
  | some rest => [] :: alternatives commas rest
  | none =>
    match cs with
    | [] => [[]]
    | c :: rest =>
      if commas && c == ',' then [] :: alternatives commas rest
      else match alternatives commas rest with
        | [] => [[c]]
        | piece :: pieces => (c :: piece) :: pieces
termination_by cs.length
decreasing_by
  · exact length_afterSpacedOr?_lt _h
  · simp
  · simp

/-- More than blanks. -/
def hasContent (cs : List Char) : Bool := !cs.all isBlank

/-! ## Courses -/

/-- The text after blanks and a remark in parentheses. -/
def afterRemark? (cs : List Char) : Option (List Char) :=
  match cs.dropWhile isBlank with
  | '(' :: inside =>
    match inside.dropWhile (· != ')') with
    | _ :: rest => some rest
    | [] => none
  | _ => none

theorem length_afterRemark?_lt {cs rest : List Char} (h : afterRemark? cs = some rest) :
    rest.length < cs.length := by
  unfold afterRemark? at h
  split at h
  · rename_i inside heq
    have h₁ := length_dropWhile_le isBlank cs
    split at h
    · rename_i c r heq'
      have h₂ := length_dropWhile_le (· != ')') inside
      injection h with h
      rw [heq] at h₁
      rw [heq'] at h₂
      simp only [List.length_cons] at h₁ h₂
      rw [← h]
      omega
    · cases h
  · cases h

/-- Drops every remark in parentheses together with the blanks before it. -/
def dropRemarks (cs : List Char) : List Char :=
  match _h : afterRemark? cs with
  | some rest => dropRemarks rest
  | none =>
    match cs with
    | [] => []
    | c :: rest => c :: dropRemarks rest
termination_by cs.length
decreasing_by
  · exact length_afterRemark?_lt _h
  · simp

/-- The text after blanks, of which there must be one at least. -/
def afterBlanks? (cs : List Char) : Option (List Char) :=
  match cs with
  | c :: rest => if isBlank c then some (rest.dropWhile isBlank) else none
  | [] => none

/-- A letter from A to D in any case. -/
def passingLetter? (c : Char) : Option Letter :=
  if c == 'a' || c == 'A' then some .a
  else if c == 'b' || c == 'B' then some .b
  else if c == 'c' || c == 'C' then some .c
  else if c == 'd' || c == 'D' then some .d
  else none

/-- The grade in `Minimum Grade of C`, which must end the text. -/
def spelledMinimum? (cs : List Char) : Option Letter := do
  let cs ← afterWord? "minimum".toList cs
  let cs ← afterBlanks? cs
  let cs ← afterWord? "grade".toList cs
  let cs ← afterBlanks? cs
  let cs ← afterWord? "of".toList cs
  match ← afterBlanks? cs with
  | c :: rest => if hasContent rest then none else passingLetter? c
  | [] => none

/-- The grade in `(min C)`, which must end the text; the words may be longer. -/
def bracketedMinimum? (cs : List Char) : Option Letter :=
  match cs with
  | '(' :: rest => do
    let cs ← afterWord? "min".toList (rest.dropWhile isBlank)
    let cs := ((afterWord? "imum".toList cs).getD cs).dropWhile isBlank
    let cs := ((afterWord? "grade".toList cs).map (·.dropWhile isBlank)).getD cs
    match cs with
    | c :: rest =>
      match rest.dropWhile isBlank with
      | ')' :: rest => if hasContent rest then none else passingLetter? c
      | _ => none
    | [] => none
  | _ => none

/-- A minimum grade that makes up the whole text, with blanks before it. -/
def minimum? (cs : List Char) : Option Letter :=
  let cs := cs.dropWhile isBlank
  (spelledMinimum? cs).or (bracketedMinimum? cs)

/-- Splits a minimum grade off behind the shortest possible course, which must stand on one line.
    `before` holds the characters of the course so far, the last one first. -/
def splitMinimumFrom (before : List Char) : List Char → Option (List Char × Letter)
  | [] => none
  | c :: cs =>
    if c == '\n' then none
    else match minimum? cs with
      | some l => some ((c :: before).reverse, l)
      | none => splitMinimumFrom (c :: before) cs

/-- Drops blanks at both ends and the full stops behind them. -/
def trimToken (cs : List Char) : List Char := dropEndWhile (· == '.') (trim cs)

/-- Reads one course, perhaps with a minimum grade. -/
def readCourse (cs : List Char) : Except Fault Requirement :=
  let token := trimToken cs
  let (token, minimum) := match splitMinimumFrom [] token with
    | some (name, l) => (name, some l)
    | none => (token, none)
  let token := trim (dropRemarks token)
  match Course.codeOfChars? token with
  | some code => .ok (.course (String.ofList code) minimum)
  | none => .error (.tree (.notACourse (String.ofList token)))

/-- A single requirement stands for itself. -/
def single (connective : Connective) : List Requirement → Except Fault Requirement
  | [r] => .ok r
  | rs => join connective rs

/-- Reads the alternatives of a clause. -/
def readClause (cs : List Char) : Except Fault Requirement := do
  match ← ((alternatives false cs).filter hasContent).mapM readCourse with
  | [] => throw (.tree (.noAlternatives (String.ofList cs)))
  | courses => single .any courses

/-! ## Several of a list -/

/-- The most combinations that a choice is spelled out into. -/
def maxCombinations : Nat := 64

/-- Counts that are written as words. -/
def countWords : List (String × Nat) :=
  [("one", 1), ("two", 2), ("three", 3), ("four", 4), ("five", 5)]

/-- Splits a count off: digits or one of the words in any case. -/
def splitCount? (cs : List Char) : Option (List Char × List Char) :=
  let digits := cs.takeWhile isDigit
  if !digits.isEmpty then some (digits, cs.dropWhile isDigit)
  else countWords.findSome? fun (word, _) =>
    (afterWord? word.toList cs).map fun rest => (cs.take (cs.length - rest.length), rest)

/-- The number that a count stands for. -/
def countValue (count : List Char) : Except Fault (Option Nat) :=
  let word := lower (String.ofList count)
  if !count.isEmpty && count.all isDigit then
    match Number.readInteger word with
    | .value n => .ok (some n.toNat)
    | .tooLong digits => .error (.value (.integerTooLong digits))
    | .notInteger => .error (.value (.notAnInteger word))
  else .ok (countWords.lookup word)

/-- A count and the list to choose from. -/
structure Choice where
  count : List Char
  options : List Char

/-- Takes `Two courses from: …` apart. The list must stand on one line; a colon with nothing behind
    it is the list itself. -/
def choice? (cs : List Char) : Option Choice := do
  let start := ((afterWord? "any".toList cs).bind afterBlanks?).getD cs
  let (count, cs) ← splitCount? start
  let cs ← afterWord? "course".toList (← afterBlanks? cs)
  let cs := (afterWord? ['s'] cs).getD cs
  let cs ← afterWord? "from".toList (← afterBlanks? cs)
  let options := match cs.dropWhile isBlank with
    | ':' :: rest => if hasContent rest then rest.dropWhile isBlank else ':' :: rest
    | rest => rest
  if options.isEmpty || options.contains '\n' then none else some { count, options }

/-- All ways to choose `n` of a list, in the order of the list. -/
def combinations {α : Type} : Nat → List α → List (List α)
  | 0, _ => [[]]
  | _ + 1, [] => []
  | n + 1, a :: as =>
    if as.length < n then []
    else (combinations n as).map (a :: ·) ++ combinations (n + 1) as

/-- The number of ways to choose some of `m`. -/
def countCombinations (m : Nat) : Nat → Nat
  | 0 => 1
  | n + 1 => countCombinations m n * (m - n) / (n + 1)

/-- Spells a choice out as alternatives of courses that are all needed. `text` is the whole cell. -/
def readChoice (text : List Char) (choice : Choice) : Except Fault Requirement := do
  let options := trimToken choice.options
  let count ← countValue choice.count
  let courses ← ((alternatives true options).filter hasContent).mapM readCourse
  let impossible : Fault :=
    .tree (.impossibleChoice (String.ofList choice.count) (String.ofList options))
  match count with
  | none => throw impossible
  | some n =>
    if n == 0 || courses.length < n then throw impossible
    else if n == 1 then single .any courses
    else if maxCombinations < countCombinations courses.length n then
      throw (.tree (.tooManyChoices (String.ofList text)))
    else join .any (← (combinations n courses).mapM (join .all))

end Prose

open Text Prose

/-- Reads a catalog cell, `none` if nothing is required. -/
def ofProse (text : String) : Except Fault (Option Requirement) := do
  let cs := trim text.toList
  let lowered := lower (String.ofList cs)
  if nothing.contains lowered then return none
  if unsupportedWords.any fun word => hasInfix word.toList lowered.toList then
    throw (.tree (.unsupported (String.ofList cs)))
  match choice? cs with
  | some choice => return some (← readChoice cs choice)
  | none =>
    match ← ((cutAt (· == ';') cs).filter hasContent).mapM readClause with
    | [] => return none
    | clauses => return some (← single .all clauses)

end DegreePlan.Requirement
