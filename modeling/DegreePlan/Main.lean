import DegreePlan.Catalog.Review

/-!
# The catalog gate

A command that checks a catalog file before it is published. It prints what it found and fails if
the catalog has errors.
-/

namespace DegreePlan.Gate

/-- The catalog that is checked when no path is given. -/
def defaultPath : String := "data/courses.csv"

/-- The path that the arguments give. -/
def path? : List String → Option String
  | [] => some defaultPath
  | ["--path", path] => some path
  | [argument] => (argument.dropPrefix? "--path=").map (·.toString)
  | _ => none

/-- The path and the text of a file, or of the catalog in a directory. -/
def read (path : String) : IO (String × Option String) := do
  try return (path, some (← IO.FS.readFile path))
  catch _ =>
    try return (path ++ "/courses.csv", some (← IO.FS.readFile (path ++ "/courses.csv")))
    catch _ => return (path, none)

/-- Checks the file at a path and tells whether it may be published. -/
def run (path : String) : IO UInt32 := do
  let (file, text) ← read path
  match Catalog.clear path file text with
  | .error f =>
    IO.eprintln f.message
    return 1
  | .ok c =>
    for line in c.notices do IO.eprintln line
    for line in c.report do IO.println line
    return if c.passed then 0 else 1

end DegreePlan.Gate

/-- Runs the gate; arguments that it does not know are an error of their own. -/
def main (args : List String) : IO UInt32 :=
  match DegreePlan.Gate.path? args with
  | some path => DegreePlan.Gate.run path
  | none => do
    IO.eprintln "usage: --path PATH"
    return 2
