import DegreePlan.Catalog.Load

/-!
# The catalog feed

A service takes its catalog from a file and loads it again when the file has changed. A file that
cannot be loaded leaves the catalog as it was.
-/

namespace DegreePlan

/-- A catalog file and the time of its last change. -/
structure CatalogFile where
  text : String
  changed : Int
deriving DecidableEq, Inhabited

/-- The catalog in use and the file that it comes from. -/
structure Feed where
  path : String
  file : Option CatalogFile := none
  catalog : Catalog := { columns := [], courses := [] }
  /-- The time of change of the file that was loaded last. -/
  loaded : Option Int := none
deriving Inhabited

namespace Feed

/-- The file is newer than the catalog. -/
def isStale (f : Feed) : Bool :=
  match f.file, f.loaded with
  | none, _ => false
  | some _, none => true
  | some file, some loaded => loaded < file.changed

/-- Loads the catalog from the file; the messages, and the feed if it was loaded. -/
def load (f : Feed) : List String × Option Feed :=
  match Catalog.load f.path (f.file.map (·.text)) with
  | (log, .ok catalog) =>
    (log ++ [s!"[OK] Reloaded {catalog.courses.length} courses from {f.path}"],
      some { f with catalog, loaded := f.file.map (·.changed) })
  | (log, .error fault) =>
    (log ++ [s!"[WARN] Data reload failed; keeping previous catalog: {fault.message}"], none)

/-- Loads the catalog if the file is newer or if it is forced to: the messages, whether a catalog
    was loaded, and the feed. -/
def reload (f : Feed) (force : Bool := false) : List String × Bool × Feed :=
  if force || f.isStale then
    match f.load with
    | (log, some g) => (log, true, g)
    | (log, none) => (log, false, f)
  else ([], false, f)

end Feed
end DegreePlan
