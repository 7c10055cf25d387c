import DegreePlan.Json.Basic
import DegreePlan.Number.Shortest
import DegreePlan.Text.Quoted

/-!
# Values in messages

A message shows a value exactly: texts quoted, lists in brackets, objects in braces, all separated
by a comma and a space. Text that is put into a sentence stands without quotes.
-/

namespace DegreePlan.Json

open DegreePlan.Text (quote)

mutual

/-- The value as a message shows it exactly. -/
def shown : Json → String
  | null => "None"
  | bool b => if b then "True" else "False"
  | int n => toString n
  | real x => Number.floatText x
  | str s => quote s
  | arr items => "[" ++ ", ".intercalate (shownItems items) ++ "]"
  | obj fields => "\x7b" ++ ", ".intercalate (shownFields fields) ++ "\x7d"

/-- The items of a list. -/
def shownItems : List Json → List String
  | [] => []
  | v :: vs => shown v :: shownItems vs

/-- The fields of an object. -/
def shownFields : List (String × Json) → List String
  | [] => []
  | (n, v) :: rest => (quote n ++ ": " ++ shown v) :: shownFields rest

end

/-- The value as text. -/
def asText : Json → String
  | str s => s
  | v => shown v

/-- What kind of value it is. -/
def kindName : Json → String
  | null => "NoneType"
  | bool _ => "bool"
  | int _ => "int"
  | real _ => "float"
  | str _ => "str"
  | arr _ => "list"
  | obj _ => "dict"

/-- A list of texts as a message shows it. -/
def shownTexts (texts : List String) : String :=
  "[" ++ ", ".intercalate (texts.map quote) ++ "]"

end DegreePlan.Json
