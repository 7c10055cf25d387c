import DegreePlan.Fault
import DegreePlan.Json.Parser
import DegreePlan.Json.Printer
import DegreePlan.Text.Digest

/-!
# The cache

A directory with one file for every user's plan. The name of a file is made from the digest of its
user, and the file repeats the digest inside, so a plan is only ever read back for the user it was
saved for. A file that cannot be read is removed. A plan is written to a draft first, which takes the
place of the file once it is complete.
-/

namespace DegreePlan

/-- What a file of the cache holds: a saved plan with the digest of its user, or any text. -/
inductive CacheFile where
  | plan (userKey : String) (semesters : Json)
  | text (content : String)
  /-- The beginning of a plan that was not written to its end. -/
  | draft

/-- The place of the cache. -/
inductive Directory where
  | absent
  /-- A plain file stands where the directory would be. -/
  | blocked
  | files (files : List (String × CacheFile))

/-- Plans on disk. -/
structure Cache where
  directory : Directory := .absent

namespace Cache

/-- What every file of a plan is called in front. -/
def namePrefix : String := "plan-"

/-- What stands for a user in the cache. -/
def userKey (user : String) : String := Text.Digest.ofText user

/-- The name of a user's file. -/
def fileName (user : String) : String := namePrefix ++ userKey user ++ ".json"

/-- The name of the file that is written before it takes the place of a user's file. -/
def draftName (user : String) : String := fileName user ++ ".tmp"

/-- The files in the directory. -/
def files (c : Cache) : List (String × CacheFile) :=
  match c.directory with
  | .files files => files
  | _ => []

/-- The names of the files in order, unless there is no directory. -/
def fileNames? (c : Cache) : Option (List String) :=
  match c.directory with
  | .files files => some ((files.map (·.1)).mergeSort fun a b => decide (a ≤ b))
  | _ => none

/-- Puts a file in the place of the one with its name, or behind the others. -/
def putFile (name : String) (file : CacheFile) :
    List (String × CacheFile) → List (String × CacheFile)
  | [] => [(name, file)]
  | (n, f) :: rest => if n == name then (n, file) :: rest else (n, f) :: putFile name file rest

/-- Writes a file, making the directory if needed. -/
def write (c : Cache) (name : String) (file : CacheFile) : Except Fault Cache :=
  match c.directory with
  | .blocked => .error (.access .directoryBlocked)
  | _ => .ok { directory := .files (putFile name file c.files) }

/-- Removes a file if it is there. -/
def remove (c : Cache) (name : String) : Except Fault Cache :=
  match c.directory with
  | .blocked => .error (.access .notADirectory)
  | .absent => .ok c
  | .files files => .ok { directory := .files (files.filter (·.1 != name)) }

/-- How a save ended, and the cache after it. -/
structure Saved where
  cache : Cache
  result : Except Fault Unit

/-- Saves a user's plan. The draft of a plan that is too long to be written stays as far as it came,
    and the file of the user stays as it was. -/
def save (c : Cache) (user : String) (semesters : Json) : Saved :=
  if semesters.isWritable then
    match (do (← c.write (fileName user) (.plan (userKey user) semesters)).remove (draftName user)) with
    | .ok d => { cache := d, result := .ok () }
    | .error f => { cache := c, result := .error f }
  else
    match c.write (draftName user) .draft with
    | .ok d => { cache := d, result := .error (.value .integerTooLongToWrite) }
    | .error f => { cache := c, result := .error f }

/-- There is a file for the user. -/
def has (c : Cache) (user : String) : Bool := (c.files.lookup (fileName user)).isSome

/-- Removes a user's file. -/
def clear (c : Cache) (user : String) : Except Fault Cache := c.remove (fileName user)

/-- Removes the files of all plans. -/
def clearAll (c : Cache) : Cache :=
  match c.directory with
  | .files files =>
    { directory := .files (files.filter fun (name, _) => !namePrefix.isPrefixOf name) }
  | _ => c

/-- The digest and the semesters in a file, `none` if it is no text of a value. -/
def CacheFile.contents? : CacheFile → Option (Except Fault (Json × Json))
  | .plan key semesters => some (.ok (.str key, semesters))
  | .text content =>
    (Json.parse? content).map fun v =>
      match v.fields? with
      | some fields => .ok (Json.fieldOf fields "user_key", Json.fieldOf fields "semesters")
      | none => .error (.value (.noFields v.kindName))
  | .draft => none

/-- What was found in the cache. -/
structure Loaded where
  cache : Cache
  log : List String := []
  result : Except Fault (Option Json)

/-- Loads the semesters that were saved for a user. -/
def load (c : Cache) (user : String) : Loaded :=
  let name := fileName user
  match c.files.lookup name with
  | none => { cache := c, result := .ok none }
  | some file =>
    match CacheFile.contents? file with
    | none =>
      { cache := { directory := .files (c.files.filter (·.1 != name)) }
        log := [s!"[WARN] Discarding unreadable plan cache {name}"], result := .ok none }
    | some (.error f) => { cache := c, result := .error f }
    | some (.ok (key, semesters)) =>
      if key.text? == some (userKey user) then
        { cache := c, result := .ok (some (semesters.orElse (.obj []))) }
      else { cache := c, result := .ok none }

end Cache
end DegreePlan
