import DegreePlan.Requirement.Basic

/-!
# Who requires whom

The requirement trees of a catalog make a graph: every course leads to the courses that its tree
mentions. Seen from the other side every course leads to the courses that mention it. Cycles are
searched in the first graph, the lengths of chains in the second.
-/

namespace DegreePlan

/-- Courses with the courses they lead to, in order; each course is listed once. -/
abbrev CourseGraph := List (String × List String)

namespace CourseGraph

/-- The courses that a course leads to. -/
def next (g : CourseGraph) (code : String) : List String := (g.lookup code).getD []

/-- The course is listed. -/
def lists (g : CourseGraph) (code : String) : Bool := g.any (·.1 == code)

/-- The listed courses. -/
def nodes (g : CourseGraph) : List String := g.map (·.1)

/-- Adds an edge; edges are not doubled, and a new course comes last. -/
def link (source target : String) : CourseGraph → CourseGraph
  | [] => [(source, [target])]
  | (code, targets) :: rest =>
    if code == source then
      (code, if targets.contains target then targets else targets ++ [target]) :: rest
    else (code, targets) :: link source target rest

/-- The graph from every course to the courses that its tree mentions. -/
def ofTrees (trees : List (String × Option Requirement)) : CourseGraph :=
  trees.map fun (code, tree) => (code, tree.elim [] (·.codes))

/-- The graph from every mentioned course to the courses of the list that mention it. -/
def dependents (codes : List String) (mentions : CourseGraph) : CourseGraph :=
  codes.foldl (fun g code => (mentions.next code).foldl (fun g source => g.link source code) g) []

/-! ## Cycles -/

/-- A search for cycles: the courses that were entered and the cycles that were met. -/
structure CycleSearch where
  entered : List String := []
  cycles : List (List String) := []

/-- Searches from a course that has not been entered. `path` leads to it from where the search
    began. An edge back to the path closes a cycle. The depth never exceeds the number of listed
    courses, which is what `fuel` counts. -/
def enter (g : CourseGraph) : (fuel : Nat) → (path : List String) → String → CycleSearch →
    CycleSearch
  | 0, _, _, search => search
  | fuel + 1, path, code, search =>
    let path := path ++ [code]
    (g.next code).foldl (fun (search : CycleSearch) target =>
      if path.contains target then
        { search with cycles := search.cycles ++ [path.dropWhile (· != target) ++ [target]] }
      else if search.entered.contains target || !g.lists target then search
      else enter g fuel path target search)
      { search with entered := code :: search.entered }

/-- The cycles that a search from all courses in the order of their codes meets. Each is the path
    from the course that was entered first back to itself. -/
def cycles (g : CourseGraph) : List (List String) :=
  ((g.nodes.mergeSort fun a b => decide (a ≤ b)).foldl (fun (search : CycleSearch) code =>
    if search.entered.contains code then search else enter g g.length [] code search) {}).cycles

/-! ## Chains -/

/-- The depths that are known. -/
abbrev Depths := List (String × Nat)

/-- The depth of a course: one more than the greatest depth of the courses it leads to, zero if it
    leads to none. A course that is met again on the way to itself counts as zero there. The depth
    of the search never exceeds the number of courses, which is what `fuel` counts. -/
def depth (g : CourseGraph) (fuel : Nat) (path : List String) (code : String) (known : Depths) :
    Nat × Depths :=
  match known.lookup code with
  | some d => (d, known)
  | none =>
    if path.contains code then (0, known)
    else match fuel with
      | 0 => (0, known)
      | fuel + 1 =>
        let targets := g.next code
        let (deepest, known) := targets.foldl (fun (deepest, known) target =>
          let (d, known) := depth g fuel (code :: path) target known
          (max deepest d, known)) (0, known)
        let result := if targets.isEmpty then 0 else deepest + 1
        (result, known ++ [(code, result)])

/-- An upper bound for the number of courses in the graph. -/
def size (g : CourseGraph) : Nat := g.foldl (fun n (_, targets) => n + targets.length + 1) 0

/-- The depths of all courses of the graph. -/
def depths (g : CourseGraph) : Depths :=
  g.nodes.foldl (fun known code => (depth g g.size [] code known).2) []

/-! ## Unlocks -/

/-- The first courses of a list, as many as a value says: null sets no limit, and a negative number
    leaves that many off at the end. -/
def limited (codes : List String) : Json → Except Fault (List String)
  | .null => .ok codes
  | .bool b => .ok (codes.take (if b then 1 else 0))
  | .int n => .ok (codes.take (if 0 ≤ n then n else codes.length + n).toNat)
  | v => .error (.value (.notANumber v.kindName))

/-- The courses that a course leads to, up to a limit. -/
def unlocks (g : CourseGraph) (code : String) (limit : Json := .null) :
    Except Fault (List String) :=
  limited (g.next code) limit

end CourseGraph
end DegreePlan
