import DegreePlan.Proofs.Requirement.Wire
import DegreePlan.Service.Basic

/-!
# Asking for an evaluation again

The trees of a running service were all read, from values or from prose, so they are written down without
loss. An evaluation that is asked for again, with the prerequisites of its own answer, is answered alike.
-/

namespace DegreePlan

/-! ## Trees of the catalog -/

/-- The prerequisites of every course are a tidy tree or none. -/
def Catalog.Tidy (c : Catalog) : Prop := ∀ l ∈ c.courses, ∀ r ∈ l.prerequisites, r.Tidy

theorem CourseRow.tidy_of_readTree {text : String} {tree : Option Requirement} (h : readTree text = .ok tree) :
    ∀ r ∈ tree, r.Tidy := by
  unfold readTree at h
  split at h
  · exact Requirement.tidy_of_ofWire h
  · cases h

theorem CourseRow.tidy_of_readPrerequisites {row : CourseRow} {read : Option (Option Requirement)}
    (h : row.readPrerequisites = .ok read) : ∀ r ∈ read.join, r.Tidy := by
  unfold readPrerequisites at h
  dsimp only at h
  split at h
  · split at h
    · next hp => cases h; exact Requirement.tidy_of_ofProse hp
    · split at h
      · cases h; simp
      · cases h
  · split at h
    · next ht => cases h; exact tidy_of_readTree ht
    · split at h
      · cases h; simp
      · cases h

namespace Catalog

theorem tidy_of_ofTable {t : Table} {c : Catalog} (h : (ofTable t).2 = .ok c) : c.Tidy := by
  unfold ofTable at h
  split at h
  · cases h
  · dsimp only at h
    split at h
    · cases h
    · next columns _ _ courses hl =>
      cases h
      intro l hl' r hr
      obtain ⟨credits, -, hm⟩ := bind_eq_ok.1 hl
      obtain ⟨⟨⟨code, row⟩, n⟩, -, hrow⟩ := mem_of_mapM hm hl'
      obtain ⟨read, hread, made⟩ := bind_eq_ok.1 hrow
      obtain rfl := pure_eq_ok.1 made
      exact CourseRow.tidy_of_readPrerequisites hread r hr

theorem tidy_of_load {path : String} {text : Option String} {c : Catalog} (h : (load path text).2 = .ok c) :
    c.Tidy := by
  unfold load at h
  split at h
  · cases h
  · split at h
    · cases h
    · exact tidy_of_ofTable h

end Catalog

/-- Loading the file again keeps the catalog or takes one that was read. -/
theorem Feed.tidy_reload {f : Feed} (h : f.catalog.Tidy) (force : Bool) : (f.reload force).2.2.catalog.Tidy := by
  unfold reload
  split
  · cases hl : f.load with
    | mk log loaded =>
      cases loaded with
      | none => exact h
      | some g =>
        unfold load at hl
        split at hl
        · next c hc =>
          obtain ⟨-, rfl⟩ := Prod.mk.inj hl |>.imp_right Option.some.inj
          exact Catalog.tidy_of_load (congrArg Prod.snd hc)
        · cases hl
  · exact h

namespace Service

/-! ## Running services -/

/-- The services that are opened with a file, and what they become by requests, by other files and by reloads. -/
inductive Running : Service → Prop where
  | opened (path : String) (file : Option CatalogFile) (archive : Archive) (maxListInput : Int) :
    Running { feed := (({ path, file } : Feed).reload).2.2, archive, maxListInput }
  | handled {s : Service} (run : Running s) (r : Request) : Running (s.handle r).service
  | changed {s : Service} (run : Running s) (file : Option CatalogFile) :
      Running { s with feed := { s.feed with file } }
  | reloaded {s : Service} (run : Running s) (force : Bool) : Running (s.reload force).2.2

/-- Answers that need the catalog look at its file first. -/
theorem withCatalog_eq (s : Service) (answer : Service → List String × Response) :
    s.withCatalog answer =
      { log := (s.reload).1 ++ (answer (s.reload).2.2).1, response := (answer (s.reload).2.2).2,
        service := (s.reload).2.2 } := by
  unfold withCatalog
  rcases s.reload with ⟨log, done, t⟩
  rfl

/-- A request leaves the feed as it was or looks at its file. -/
theorem serve_feed (s : Service) (route : Route) (r : Request) :
    (s.serve route r).service.feed = s.feed ∨ (s.serve route r).service.feed = (s.feed.reload).2.2 := by
  cases route with
  | health | file => exact .inl rfl
  | evaluate | course | recommend => simp only [serve, withCatalog_eq]; exact .inr rfl
  | semesters | semesterCourses =>
    refine .inl ?_
    simp only [serve, forUser]
    split <;> rfl

theorem handle_feed (s : Service) (r : Request) :
    (s.handle r).service.feed = s.feed ∨ (s.handle r).service.feed = (s.feed.reload).2.2 := by
  unfold handle
  split
  · exact .inl rfl
  · exact .inl rfl
  · exact .inl rfl
  · split
    · exact .inl rfl
    · exact serve_feed s _ r
    · exact serve_feed s _ r

/-- All trees of a running service are tidy. -/
theorem Running.tidy {s : Service} (run : Running s) : s.catalog.Tidy := by
  induction run with
  | opened path file archive limit => exact Feed.tidy_reload (fun l hl => by cases hl) false
  | @handled s _ r ih =>
    rcases handle_feed s r with h | h
    · rw [catalog, h]; exact ih
    · rw [catalog, h]; exact Feed.tidy_reload ih false
  | changed _ file ih => exact ih
  | reloaded _ force ih => exact Feed.tidy_reload ih force

/-! ## Evaluations -/

/-- The request asks for an evaluation. -/
structure AsksEvaluation (r : Request) : Prop where
  post : r.method = .post
  path : Destination.find .post r.path = .route .evaluate

theorem AsksEvaluation.response {r : Request} (h : AsksEvaluation r) (s : Service) :
    (s.handle r).response = ((s.reload).2.2.evaluate r.json).2 := by
  unfold handle
  simp only [h.post, h.path, serve, withCatalog_eq]

theorem response_eq_ok {r : Response} {answer : List (String × Json)} (status : r.status = 200)
    (body : r.body = some (.obj answer)) : r = .ok answer := by
  cases r
  simp_all [Response.ok]

theorem error_ne_ok {status : Nat} (h : status ≠ 200) (code message : String) (answer : List (String × Json)) :
    Response.error status code message ≠ .ok answer := by
  simp [Response.error, Response.ok, h]

theorem ofFault_ne_ok (f : Fault) (answer : List (String × Json)) : Response.ofFault f ≠ .ok answer := by
  unfold Response.ofFault
  split
  · exact error_ne_ok (by decide) _ _ answer
  · simp [Response.ok]

/-- A subject is a course of the catalog or the tree of a request that names no course. -/
theorem subject_cases (s : Service) (fields : List (String × Json)) :
    (∃ l ∈ s.catalog.courses, s.subject fields = .ok (.listed l)) ∨
      (∃ raw, (Json.fieldOf fields "requested_course").isBlank = true ∧ fields.lookup "prerequisites" = some raw ∧
        s.subject fields = .ok (.inline raw)) ∨
      ∃ refusal, s.subject fields = .error refusal ∧ ∀ answer, refusal ≠ .ok answer := by
  unfold subject
  dsimp only
  split
  · next blank =>
    split
    · next raw hr => exact .inr (.inl ⟨raw, blank, hr, rfl⟩)
    · exact .inr (.inr ⟨_, rfl, error_ne_ok (by decide) _ _⟩)
  · split
    · exact .inr (.inr ⟨_, rfl, ofFault_ne_ok _⟩)
    · split
      · exact .inr (.inr ⟨_, rfl, error_ne_ok (by decide) _ _⟩)
      · next l hl => exact .inl ⟨l, List.mem_of_find?_eq_some hl, rfl⟩

/-- A body whose courses can be read and whose subject has a tree is answered by its evaluation. -/
theorem evaluate_of_subject {s : Service} {fields : List (String × Json)} {progress : Progress} {subject : Subject}
    {tree : Option Requirement} (hp : Input.readProgress s.maxListInput fields = .ok progress)
    (hs : s.subject fields = .ok subject) (ht : subject.tree.2 = .ok tree) :
    (s.evaluate (.obj fields)).2 = evaluation subject.code tree progress := by
  unfold evaluate
  simp only [hp, hs]
  split
  · next h => rw [h] at ht; cases ht; rfl
  · next h => rw [h] at ht; cases ht

/-- An evaluation that is answered is about a tree that was read. -/
theorem Running.evaluated {s : Service} (run : Running s) {body : Json} {answer : List (String × Json)}
    (h : (s.evaluate body).2 = .ok answer) :
    ∃ fields progress code tree, body = .obj fields ∧ Input.readProgress s.maxListInput fields = .ok progress ∧
      (∀ r ∈ tree, r.Tidy) ∧ evaluation code tree progress = .ok answer := by
  cases body with
  | obj fields =>
    cases hp : Input.readProgress s.maxListInput fields with
    | error f => simp only [evaluate, hp] at h; exact absurd h (ofFault_ne_ok f answer)
    | ok progress =>
      rcases subject_cases s fields with ⟨l, hl, hs⟩ | ⟨raw, -, -, hs⟩ | ⟨refusal, hs, refused⟩
      · rw [evaluate_of_subject hp hs rfl] at h
        exact ⟨fields, progress, _, _, rfl, hp, run.tidy l hl, h⟩
      · cases ht : (Subject.inline raw).tree.2 with
        | ok tree =>
          rw [evaluate_of_subject hp hs ht] at h
          exact ⟨fields, progress, _, _, rfl, hp, Requirement.tidy_of_ofWireOrNone ht, h⟩
        | error f =>
          unfold evaluate at h
          simp only [hp, hs] at h
          split at h
          · next hn => rw [hn] at ht; cases ht
          · exact absurd h (ofFault_ne_ok _ answer)
      · simp only [evaluate, hp, hs] at h
        exact absurd h (refused answer)
  | _ => exact absurd h (error_ne_ok (by decide) _ _ answer)

/-- A body with the courses of an earlier one, about the tree that the answer to that one shows. -/
structure AsksBack (earlier answer fields : List (String × Json)) : Prop where
  completed : Json.fieldOf fields "completed_courses" = Json.fieldOf earlier "completed_courses"
  planned : Json.fieldOf fields "planned_courses" = Json.fieldOf earlier "planned_courses"
  unnamed : (Json.fieldOf fields "requested_course").isBlank = true
  tree : ∃ v, fields.lookup "prerequisites" = some v ∧ v.same (Json.fieldOf answer "prerequisites") = true

/-- An evaluation that is asked for again is answered alike, but that no course is named. -/
theorem AsksBack.evaluate {s t : Service} (run : Running s) (limit : t.maxListInput = s.maxListInput)
    {earlier answer fields : List (String × Json)} (answered : (s.evaluate (.obj earlier)).2 = .ok answer)
    (back : AsksBack earlier answer fields) :
    (t.evaluate (.obj fields)).2 = .ok (Json.put "requested_course" .null answer) := by
  obtain ⟨_, progress, code, tree, ⟨⟩, hp, tidy, made⟩ := run.evaluated answered
  obtain rfl := Json.obj.inj (Option.some.inj (congrArg Response.body made))
  obtain ⟨v, hv, same⟩ := back.tree
  have subject : t.subject fields = .ok (.inline v) := by
    simp only [Service.subject, back.unnamed, if_pos, hv]
  have read : (Subject.inline v).tree.2 = .ok tree := by
    simp only [Subject.tree, Requirement.ofWireOrNone, Requirement.ofWire_toWire tidy same]
  have progress_back : Input.readProgress t.maxListInput fields = .ok progress := by
    rw [← hp, limit, Input.readProgress, Input.readProgress, back.completed, back.planned]
  rw [evaluate_of_subject progress_back subject read]
  rfl

end Service

/-- Reads a tree from a value and writes it down again. -/
def Requirement.normalize (raw : Json) : Except Fault Json := do return toWire (← ofWire raw)

/-- A tree that was read is read back from every value that equals what it is written as, so different trees are
    written differently, and what is written down again once stays as it is. The prerequisites that a running service
    answers with can be sent back, to any service that takes as long lists: the answer is the same but that no course
    is named. -/
theorem Service.Running.wire_round_trip {s t : Service} (run : Running s) (limit : t.maxListInput = s.maxListInput) :
    (∀ tree, Requirement.Given tree → ∀ v, v.same (Requirement.toWire tree) = true →
      Requirement.ofWire v = .ok tree) ∧
      (∀ tree other, Requirement.Given tree → Requirement.Given other →
        (Requirement.toWire tree).same (Requirement.toWire other) = true → tree = other) ∧
      (∀ raw v, Requirement.normalize raw = .ok v → Requirement.normalize v = .ok v) ∧
      ∀ r r' earlier fields answer, AsksEvaluation r → AsksEvaluation r' → r.json = .obj earlier →
        r'.json = .obj fields → (s.handle r).response = .ok answer → AsksBack earlier answer fields →
          (t.handle r').response = .ok (Json.put "requested_course" .null answer) := by
  have read_back {tree : Option Requirement} (given : Requirement.Given tree) {v : Json}
      (same : v.same (Requirement.toWire tree) = true) : Requirement.ofWire v = .ok tree :=
        Requirement.ofWire_toWire given.tidy same
  refine ⟨fun tree given v => read_back given, fun tree other given given' same => ?different,
    fun raw v written => ?again, fun r r' earlier fields answer asks asks' body body' answered back => ?asked⟩
  case different => exact Except.ok.inj ((read_back given (Json.same_refl _)).symm.trans (read_back given' same))
  case again =>
    obtain ⟨tree, hr, made⟩ := bind_eq_ok.1 written
    obtain rfl := pure_eq_ok.1 made
    rw [Requirement.normalize, read_back (.value hr) (Json.same_refl _)]
    rfl
  case asked =>
    rw [asks.response, body] at answered
    rw [asks'.response, body']
    exact back.evaluate (t := (t.reload).2.2) (run.reloaded false) limit answered

namespace Service

/-- A service whose catalog lists a course that needs another one with a C. -/
def sample : Service where
  feed := (({
    path := ""
    file := some {
      text := "course_code,credits,prereq_json\nCS1331,,\"[\"\"AND\"\", \x7b\"\"id\"\": \"\" CS 1301 \"\", \"\"grade\"\": \"\"c\"\"\x7d]\"\n"
      changed := 0 } } : Feed).reload).2.2

/-- A request for an evaluation. -/
def askFor (body : String) : Request where
  method := .post
  target := "/evaluate"
  headers := [("Content-Type", "application/json")]
  body

theorem asks_askFor (body : String) : AsksEvaluation (askFor body) where
  post := rfl
  path := by
    have path : Destination.find .post (askFor "").path = .route .evaluate := by decide +kernel
    exact path

/-- The grade on record is a D, and the tree of the answer is sent back with its fields in another order. -/
theorem Running.wire_round_trip_low_grade :
    let ask := askFor "\x7b\"requested_course\": \"cs 1331\", \"completed_courses\": \x7b\"CS 1301\": \"D\"\x7d\x7d"
    let again := askFor
      "\x7b\"completed_courses\": \x7b\"CS 1301\": \"D\"\x7d, \"prerequisites\": [\"and\", \x7b\"grade\": \"C\", \"id\": \"CS 1301\"\x7d]\x7d"
    ∃ answer, (sample.handle ask).response = .ok answer ∧ Json.fieldOf answer "missing" = .arr [.str "CS 1301"] ∧
      Requirement.Given (some (.all [.course "CS 1301" (some .c)])) ∧
      (sample.handle again).response = .ok (Json.put "requested_course" .null answer) := by
  intro ask again
  let wire : Json := .arr [.str "and", .obj [("id", .str "CS 1301"), ("grade", .str "C")]]
  let answer : List (String × Json) :=
    [("mode", .str "evaluate"), ("requested_course", .str "CS 1331"), ("satisfied", .bool false),
      ("missing", .arr [.str "CS 1301"]), ("soft_satisfied_via", .arr []), ("blocked", .bool true),
      ("pending", .bool false), ("check", .str "CS 1301 [min C] ✗"), ("prerequisites", wire)]
  have found : ((sample.handle ask).response.status, (sample.handle ask).response.body) =
      (200, some (.obj answer)) := by
    decide +kernel
  have answered : (sample.handle ask).response = .ok answer :=
    have ⟨status, body⟩ := Prod.mk.inj found
    response_eq_ok status body
  have asked : ask.json =
      .obj [("requested_course", .str "cs 1331"), ("completed_courses", .obj [("CS 1301", .str "D")])] := by
    decide +kernel
  have asked_again : again.json = .obj [("completed_courses", .obj [("CS 1301", .str "D")]),
      ("prerequisites", .arr [.str "and", .obj [("grade", .str "C"), ("id", .str "CS 1301")]])] := by decide +kernel
  have same : (Json.arr [.str "and", .obj [("grade", .str "C"), ("id", .str "CS 1301")]]).same wire = true := by
    simp [wire, Json.same, Json.canonical, Json.canonicalItems, Json.canonicalFields, List.mergeSort,
      List.MergeSort.Internal.splitInTwo]
  have run : Running sample := .opened _ _ {} 500
  exact ⟨answer, answered, rfl, .value (show Requirement.ofWire wire = _ from rfl),
    (run.wire_round_trip rfl).2.2.2 ask again _ _ answer (asks_askFor _) (asks_askFor _) asked asked_again answered
      ⟨rfl, rfl, rfl, _, rfl, same⟩⟩

end Service
end DegreePlan
