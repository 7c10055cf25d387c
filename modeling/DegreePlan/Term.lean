import DegreePlan.Json.Convert
import DegreePlan.Text.Blank
import DegreePlan.Text.Case
import DegreePlan.Text.Digit

/-!
# Terms

A term is a season of a year. Within a year spring comes before summer and summer before fall. The
id of a semester is its year followed by a two-digit number for the season; in this numbering fall
comes first, so ids do not sort by time.
-/

namespace DegreePlan

/-- A season with classes. -/
inductive Season where
  | spring
  | summer
  | fall
deriving DecidableEq, Inhabited

namespace Season

/-- The season as text. -/
def text : Season → String
  | spring => "Spring"
  | summer => "Summer"
  | fall => "Fall"

/-- The season that is exactly this text. -/
def ofText? : String → Option Season
  | "Spring" => some spring
  | "Summer" => some summer
  | "Fall" => some fall
  | _ => none

/-- The place within a calendar year. -/
def index : Season → Nat
  | spring => 0
  | summer => 1
  | fall => 2

/-- The number of the season in semester ids. -/
def code : Season → Nat
  | fall => 0
  | spring => 1
  | summer => 2

/-- The season of a number in semester ids. -/
def ofCode? : Int → Option Season
  | 0 => some fall
  | 1 => some spring
  | 2 => some summer
  | _ => none

/-- The season that a value is exactly. -/
def of? (v : Json) : Option Season := v.text?.bind ofText?

end Season

/-- A season of a year. -/
structure Term where
  season : Season
  year : Int
deriving DecidableEq, Inhabited

namespace Term

/-- The semester id: the year times a hundred plus the number of the season. -/
def id (t : Term) : Int := t.year * 100 + t.season.code

/-- The term of a semester id. -/
def ofId? (id : Int) : Option Term :=
  (Season.ofCode? (id.fmod 100)).map fun season => { season, year := id.fdiv 100 }

/-- Strictly earlier. -/
def before (s t : Term) : Bool :=
  s.year < t.year || (s.year == t.year && s.season.index < t.season.index)

/-- The term that follows. -/
def next (t : Term) : Term :=
  match t.season with
  | .spring => { t with season := .summer }
  | .summer => { t with season := .fall }
  | .fall => { season := .spring, year := t.year + 1 }

end Term

/-- A term by the text of its season, which may name no season. -/
structure TermName where
  season : String
  year : Int
deriving DecidableEq, Inhabited

namespace TermName

/-- The name of a term. -/
def ofTerm (t : Term) : TermName := { season := t.season.text, year := t.year }

/-- The term of a name. -/
def term? (n : TermName) : Option Term :=
  (Season.ofText? n.season).map fun season => { season, year := n.year }

/-- The term of a name that must have one. -/
def term (n : TermName) : Except Fault Term :=
  match n.term? with
  | some t => .ok t
  | none => .error (.value .seasonNotListed)

/-- Season and year. -/
def label (n : TermName) : String := s!"{n.season} {n.year}"

end TermName

/-! ## Reading -/

namespace Term

open DegreePlan.Text

/-- Splits the name of a season off, in any case. -/
def splitSeason? (cs : List Char) : Option (List Char × List Char) :=
  [Season.spring, .summer, .fall].findSome? fun s =>
    (afterWord? (s.text.toList.map Char.toLower) cs).map fun rest =>
      (cs.take (cs.length - rest.length), rest)

/-- A year of four digits. -/
def readYear? (cs : List Char) : Option Int :=
  if cs.length == 4 && cs.all isDigit then some (digitsToNat cs) else none

/-- Reads a season and a year with blanks between them, such as `Fall 2026`. -/
def readName? (s : String) : Option TermName := do
  let (season, rest) ← splitSeason? (trim s.toList)
  match rest with
  | c :: rest =>
    if isBlank c then
      let year ← readYear? (rest.dropWhile isBlank)
      return { season := capitalize (String.ofList season), year }
    else none
  | [] => none

/-- Reads the name of a term from a value. -/
def readName (raw : Json) : Except Fault TermName :=
  match readName? (raw.orElse (.str "")).asText with
  | some n => .ok n
  | none => .error (.term (.unreadable raw))

/-- The semester id of a season and a year of any kind. -/
def idOf (season year : Json) : Except Fault Int := do
  season.checkKey
  match Season.of? season with
  | none => throw (.term (.unknownSeason season))
  | some s => return Term.id { season := s, year := ← year.toInteger }

/-- The term of a semester id of any kind. -/
def ofId (id : Json) : Except Fault Term := do
  match ofId? (← id.toInteger) with
  | some t => return t
  | none => throw (.term (.notASemesterId id))

/-- The season that a value names, which must be one. -/
def seasonOf (season : Json) : Except Fault Season :=
  match Season.of? season with
  | some s => .ok s
  | none => .error (.value .seasonNotListed)

/-- The place of a season and a year in time: the year, then the place within it. -/
def placeOf (season year : Json) : Except Fault (Int × Nat) := do
  let year ← year.toInteger
  return (year, (← seasonOf season).index)

/-- The year after a year of any kind. -/
def yearAfter : Json → Except Fault Json
  | .bool b => .ok (.int (if b then 2 else 1))
  | .int n => .ok (.int (n + 1))
  | .real x => .ok (.real (x + 1.0))
  | v => .error (.value (.notAddable v.kindName "int"))

/-- The season and the year that follow; only a new year looks at the year. -/
def nextOf (season year : Json) : Except Fault (Season × Json) := do
  match ← seasonOf season with
  | .spring => return (.summer, year)
  | .summer => return (.fall, year)
  | .fall => return (.spring, ← yearAfter year)

/-! ## Ranges of terms -/

/-- The most terms that are generated. -/
def maxGenerated : Nat := 25

/-- The terms that follow graduation unless told otherwise. -/
def defaultBuffer : Nat := 3

/-- From `t` on at most `limit` terms: all before the last term, the last term itself and `buffer`
    terms after it. -/
def through (last : Term) : (limit buffer : Nat) → Term → List Term
  | 0, _, _ => []
  | limit + 1, buffer, t =>
    if t.before last then t :: through last limit buffer t.next
    else match buffer with
      | 0 => [t]
      | more + 1 => t :: through last limit more t.next

/-- All terms from the start to graduation and `buffer` more, at most `maxGenerated`. -/
def range (start graduation : Json) (buffer : Json := .int defaultBuffer) :
    Except Fault (List Term) := do
  let first ← readName start
  let last ← readName graduation
  let last ← last.term
  let first ← first.term
  if last.before first then throw (.term (.graduationBeforeStart graduation start))
  return through last maxGenerated (← buffer.toInteger).toNat first

end Term
end DegreePlan
