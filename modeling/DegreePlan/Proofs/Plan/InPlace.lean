import DegreePlan.Proofs.Plan.Load
import DegreePlan.Sync.Mutation

/-!
# Changes in place

A plan may also be changed in place, statement by statement, and then what was written before a fault stays. But every
change makes all its checks before it writes, so one that raises has written nothing, and changes in place do the same
as those that give a new plan.
-/

namespace DegreePlan

/-- A change of a plan in place. A fault ends it where it occurs; what was written before stays. -/
abbrev Edit := ExceptT Fault (StateM Plan)

namespace Edit

open Plan

variable {α β : Type} {p : Plan}

/-- Takes over a result. -/
def ofResult (r : Except Fault α) : Edit α := ExceptT.mk (pure r)

/-- Reads the plan. -/
def look (read : Plan → Except Fault α) : Edit α := get >>= fun p => ofResult (read p)

/-- Writes to the plan. -/
def write (f : Plan → Plan) : Edit Unit := modify f

/-! ## Changes -/

/-- Adds a course. -/
def addCourse (e : Entry) : Edit Unit := do
  let s ← look (·.semester e.semester)
  if s.courses.any fun c => c.code.same e.code then
    throw (.plan (.inSemester e.code.asText s.label))
  if let some other := (← get).findCode? e.code then
    match ← look (·.lookup other.semester) with
    | some t => throw (.plan (.inOtherSemester e.code.asText t.label))
    | none => throw (.value (.missing other.semester.shown))
  if ((← get).find? e.id).isSome then throw (.plan (.idInUse e.id))
  write (·.setCourses s.id (s.courses ++ [e]))
  write touch

/-- Removes a course; gives the removed course, or none if there was nothing to remove. -/
def removeCourse (semester id : Json) : Edit (Option Entry) := do
  match ← look (·.lookup semester) with
  | none => return none
  | some s =>
    match s.find? id with
    | none => return none
    | some e =>
      write (·.setCourses s.id (s.without id))
      write touch
      return some e

/-- Moves a course to the end of another semester: the one semester is written, and then the other. -/
def moveCourse (id source target : Json) : Edit Entry := do
  let s ← look (·.semester source)
  let t ← look (·.semester target)
  let e ← ofResult (courseIn s id)
  if source.same target then return e
  let moved := { e with semester := target }
  write (·.setCourses s.id (s.without id))
  write (·.setCourses t.id (t.courses ++ [moved]))
  write touch
  return moved

/-- Replaces a course by a changed one. -/
def changeCourse (semester id : Json) (change : Entry → Except Fault Entry) : Edit Entry := do
  let s ← look (·.semester semester)
  let e ← ofResult (courseIn s id)
  let e ← ofResult (change e)
  write (·.setCourses s.id (s.courses.map fun c => if c.id.equals id then e else c))
  write touch
  return e

/-- Changes the status of a course, and its grade if one is given. -/
def setStatus (semester id status grade : Json) : Edit Entry :=
  changeCourse semester id fun e => do
    let status ← Status.read status
    match grade with
    | .null => return { e with status }
    | _ => return { e with status, grade := ← Grade.read grade }

/-- Changes the grade of a course. -/
def setGrade (semester id grade : Json) : Edit Entry :=
  changeCourse semester id fun e => do return { e with grade := ← Grade.read grade }

/-- Puts the empty semester of a term in the plan. -/
def putTerm (current : Json) (t : Term) : Edit Unit := do
  let id ← ofResult (Term.idOf (.str t.season.text) (.int t.year))
  let s : Semester := { id, term := .ofTerm t, isActive := current.same (.arr [.str t.season.text, .int t.year]) }
  write fun p => { p with semesters := putSemester s p.semesters }

/-- Fills an empty plan with the terms from the start to graduation, one after the other. -/
def generate (start graduation : Json) (current : Json := .null) : Edit (List Semester) := do
  if !(← get).semesters.isEmpty then look (·.ordered)
  else
    let terms ← ofResult (Term.range start graduation)
    terms.forM (putTerm current)
    write touch
    look (·.ordered)

/-- Drops every planned course, semester by semester. -/
def clearPlanned : Edit (List Entry) := do
  let removed ← look (·.withStatus .planned)
  if removed.isEmpty then return []
  (← get).semesters.forM fun s => write (·.setCourses s.id (s.courses.filter (·.status != .planned)))
  write touch
  return removed

/-- Makes a mutation. -/
def mutate : Sync.Mutation → Edit Sync.Effect
  | .add entry => do
    addCourse entry
    return { semesters := [entry.semester] }
  | .remove semester id => do
    match ← removeCourse semester id with
    | none => return {}
    | some _ => return { semesters := [semester], deleted := [id] }
  | .move id source target => do
    let _ ← moveCourse id source target
    return { semesters := Json.distinct [source, target] }
  | .setStatus semester id status grade => do
    let _ ← setStatus semester id status grade
    return { semesters := [semester] }
  | .setGrade semester id grade => do
    let _ ← setGrade semester id grade
    return { semesters := [semester] }
  | .generate start graduation => do
    let before := (← look (·.ordered)).map (·.id)
    let semesters ← generate start graduation
    let created := (semesters.map (·.id)).filter fun id => !before.contains id
    return { semesters := created.map .int }
  | .clearPlanned => do
    let removed ← clearPlanned
    return { semesters := Json.distinct (removed.map (·.semester)), deleted := removed.map (·.id) }

/-! ## They write last -/

/-- What a change leaves that gives a new plan: its result and the new plan, or what it raises and the plan as it
was. -/
def outcome (p : Plan) : Except Fault (α × Plan) → Except Fault α × Plan
  | .ok (a, q) => (.ok a, q)
  | .error f => (.error f, p)

@[simp] theorem run_pure (a : α) : (pure a : Edit α).run p = (.ok a, p) := rfl

@[simp] theorem run_throw (f : Fault) : (throw f : Edit α).run p = (.error f, p) := rfl

@[simp] theorem run_look (read : Plan → Except Fault α) : (look read).run p = (read p, p) := rfl

@[simp] theorem run_ofResult (r : Except Fault α) : (ofResult r).run p = (r, p) := rfl

theorem get_bind (k : Plan → Edit α) : (get >>= k).run p = (k p).run p := rfl

theorem write_bind (f : Plan → Plan) (k : Unit → Edit α) : (write f >>= k).run p = (k ()).run (f p) := rfl

/-- What is read before anything is written leaves the plan as it was if it raises. -/
theorem ofResult_bind {r : Except Fault β} {k : β → Edit α} {f : β → Except Fault (α × Plan)}
    (h : ∀ b, r = .ok b → (k b).run p = outcome p (f b)) : (ofResult r >>= k).run p = outcome p (r >>= f) := by
  rw [run_bind, run_ofResult]
  cases r with
  | error f => rfl
  | ok b => exact h b rfl

theorem look_bind {read : Plan → Except Fault β} {k : β → Edit α} {f : β → Except Fault (α × Plan)}
    (h : ∀ b, read p = .ok b → (k b).run p = outcome p (f b)) :
    (look read >>= k).run p = outcome p (read p >>= f) :=
  ofResult_bind h

/-- A change goes on with its result and the new plan. -/
theorem change_bind {x : Edit β} {r : Except Fault (β × Plan)} (hx : x.run p = outcome p r) {k : β → Edit α}
    {f : β × Plan → Except Fault (α × Plan)} (h : ∀ b q, (k b).run q = outcome p (f (b, q))) :
    (x >>= k).run p = outcome p (r >>= f) := by
  rw [run_bind, hx]
  rcases r with f | ⟨b, q⟩
  · rfl
  · exact h b q

theorem run_removeCourse (semester id : Json) :
    (removeCourse semester id).run p = outcome p (p.removeCourse semester id) := by
  refine look_bind fun found _ => ?_
  cases found with
  | none => rfl
  | some s =>
    dsimp only
    cases s.find? id <;> rfl

theorem run_moveCourse (id source target : Json) :
    (moveCourse id source target).run p = outcome p (p.moveCourse id source target) := by
  refine look_bind fun s _ => look_bind fun t _ => ofResult_bind fun e _ => ?_
  split <;> rfl

theorem run_changeCourse (semester id : Json) (change : Entry → Except Fault Entry) :
    (changeCourse semester id change).run p = outcome p (p.changeCourse semester id change) :=
  look_bind fun _ _ => ofResult_bind fun _ _ => ofResult_bind fun _ _ => rfl

theorem run_addCourse (e : Entry) : (addCourse e).run p = outcome p (p.addCourse e >>= fun q => pure ((), q)) := by
  rw [Plan.addCourse, bind_assoc]
  refine look_bind fun s _ => ?_
  dsimp only
  split
  · rfl
  rw [get_bind]
  cases p.findCode? e.code with
  | some other =>
    simp only [bind_assoc]
    refine look_bind fun found _ => ?_
    cases found <;> rfl
  | none =>
    dsimp only
    rw [get_bind]
    split <;> rfl

/-- The empty semester of a term. -/
def bare (current : Json) (t : Term) : Semester :=
  { Semester.ofTerm t with isActive := current.same (.arr [.str t.season.text, .int t.year]) }

theorem run_putTerm (current : Json) (t : Term) :
    (putTerm current t).run p = (.ok (), { p with semesters := putSemester (bare current t) p.semesters }) := by
  rw [putTerm, Term.idOf_term]
  rfl

/-- New terms come behind the semesters that are there. -/
theorem run_putTerms (current : Json) (ts : List Term) (new : (p.semesters.map (·.id) ++ ts.map (·.id)).Nodup) :
    (ts.forM (putTerm current)).run p = (.ok (), { p with semesters := p.semesters ++ ts.map (bare current) }) := by
  induction ts generalizing p with
  | nil => rw [List.map_nil, List.append_nil]; rfl
  | cons t ts ih =>
    -- terms have ids of their own, so none takes the place of another
    have unused : ∀ s ∈ p.semesters, s.id ≠ (bare current t).id := fun s hs he =>
      (List.nodup_append.1 new).2.2 _ (List.mem_map_of_mem hs) t.id (by simp) he
    show (putTerm current t >>= fun _ => ts.forM (putTerm current)).run p = _
    rw [run_bind, run_putTerm, putSemester_new unused]
    dsimp only
    rw [ih (by simpa [bare, Semester.ofTerm] using new)]
    simp

theorem run_generate (start graduation current : Json) :
    (generate start graduation current).run p = outcome p (p.generate start graduation current) := by
  rw [generate, get_bind, Plan.generate]
  cases he : p.semesters.isEmpty with
  | false =>
    show (p.ordered, p) = outcome p (p.ordered >>= fun l => pure (l, p))
    cases p.ordered <;> rfl
  | true =>
    rw [List.isEmpty_iff] at he
    refine ofResult_bind fun terms hts => ?_
    obtain ⟨-, forward⟩ := Term.range_ok hts
    -- the semesters that were put in the plan can be listed
    have dated : ∀ s ∈ terms.map (bare current), s.Dated := fun s hs => by
      obtain ⟨t, -, rfl⟩ := List.mem_map.1 hs
      exact Semester.dated_ofTerm t _
    have listed : ({ p with semesters := terms.map (bare current) }.touch).ordered =
      .ok (sorted (terms.map (bare current))) :=
      ordered_of_dated dated
    rw [run_bind, run_putTerms current terms (by simpa [he] using Term.nodup_ids forward), he, List.nil_append]
    dsimp only
    rw [write_bind, run_look, listed]
    show _ = outcome p ({ p with semesters := terms.map (bare current) }.touch.ordered >>= fun l => pure (l, _))
    rw [listed]
    rfl

/-- Semesters that get other courses one after the other get them all. -/
theorem run_setCourses (f : Semester → List Entry) {k l : List Semester} (hp : p.semesters = k ++ l)
    (h : (p.semesters.map (·.id)).Nodup) : (l.forM fun s => write (·.setCourses s.id (f s))).run p =
      (.ok (), { p with semesters := k ++ withCourses f l }) := by
  induction l generalizing p k with
  | nil => rw [withCourses, List.map_nil, ← hp]; rfl
  | cons s l ih =>
    show (write (·.setCourses s.id (f s)) >>= fun _ => l.forM fun s => write (·.setCourses s.id (f s))).run p = _
    have next := setCourses_middle hp h (f s)
    have ids : ((p.setCourses s.id (f s)).semesters.map (·.id)).Nodup := by
      rw [setCourses_semesters, withCourses_ids]; exact h
    rw [write_bind, ih (k := k ++ [{ s with courses := f s }]) (by simpa using next) ids]
    simp [withCourses, setCourses]

theorem run_clearPlanned (h : (p.semesters.map (·.id)).Nodup) : clearPlanned.run p = outcome p p.clearPlanned := by
  refine look_bind fun removed _ => ?_
  cases removed.isEmpty with
  | true => rfl
  | false =>
    simp only [Bool.false_eq_true, ↓reduceIte]
    rw [get_bind, run_bind, run_setCourses _ (k := []) rfl h]
    rfl

/-- A mutation in place does what the mutation does, and one that raises leaves the plan as it was. -/
theorem run_mutate (h : (p.semesters.map (·.id)).Nodup) (m : Sync.Mutation) :
    (mutate m).run p = outcome p (m.apply p) := by
  cases m with
  | add entry =>
    rw [mutate, run_bind, run_addCourse, Sync.Mutation.apply]
    cases p.addCourse entry <;> rfl
  | remove semester id =>
    refine change_bind (run_removeCourse semester id) fun found q => ?_
    cases found <;> rfl
  | move id source target => exact change_bind (run_moveCourse id source target) fun _ _ => rfl
  | setStatus semester id status grade => exact change_bind (run_changeCourse semester id _) fun _ _ => rfl
  | setGrade semester id grade => exact change_bind (run_changeCourse semester id _) fun _ _ => rfl
  | generate start graduation =>
    exact look_bind fun before _ => change_bind (run_generate start graduation .null) fun _ _ => rfl
  | clearPlanned => exact change_bind (run_clearPlanned h) fun _ _ => rfl

end Edit
end DegreePlan
