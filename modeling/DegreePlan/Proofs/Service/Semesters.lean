import DegreePlan.Proofs.Archive.Rows
import DegreePlan.Proofs.Service.Partition

/-!
# Requests about stored semesters

Listing, saving and deleting are answered with a value or with a refusal that changes nothing, unless a conversion
fails that nobody looks after: of a submitted number, of the id of a stored course, or of a total that is too long to be
written. Between requests whose submissions are regular this never happens.
-/

namespace DegreePlan

theorem Request.userId?_ne_empty {r : Request} {user : String} (h : r.userId? = some user) : user.isEmpty = false := by
  unfold userId? at h
  dsimp only at h
  split at h
  · cases h
  · next named => cases h; simpa using named

/-- The ids that are to be deleted can be looked up. -/
theorem Input.keys_of_idsToDelete {body : Json} {ids : List Json} (h : idsToDelete? body = some ids) :
    ∀ v ∈ ids, v.isKey = true := by
  unfold idsToDelete? at h
  split at h
  · split at h
    · unfold readIds? at h
      split at h
      · next items _ plain =>
        obtain rfl := Option.some.inj h
        intro v hv
        have := List.all_eq_true.1 plain v hv
        cases v <;> first | rfl | cases this
      · cases h
    · cases h
  · cases h

namespace Response

theorem written_status (fields : List (String × Json)) :
    (written fields).status = if (Json.obj fields).isWritable then 200 else 500 := by
  unfold written
  split <;> rfl

theorem ofFault_status (f : Fault) : (ofFault f).status = if f.isUnacceptable then 400 else 500 := by
  unfold ofFault
  split <;> rfl

end Response

namespace Service

variable {s : Service} {r : Request} {user : String}

/-! ## What can go wrong -/

/-- A request that lists, saves or deletes. -/
inductive PlanRequest (r : Request) : Prop where
  | list (get : r.method = .get) (path : Destination.find .get r.path = .route .semesters)
  | save (post : r.method = .post) (path : Destination.find .post r.path = .route .semesters)
  | delete (delete : r.method = .delete) (path : Destination.find .delete r.path = .route .semesterCourses)

/-- The request is answered with a value, with a refusal of what it says or for want of a user, and without a value no
row of anybody changes. -/
structure Clean (s : Service) (r : Request) : Prop where
  status : (s.handle r).response.status ∈ [200, 400, 401]
  kept : (s.handle r).response.status ≠ 200 → ∀ user, (s.handle r).service.archive.rows user = s.archive.rows user

/-- What nobody looks after: a stored row that cannot be written, a submission with a number of the wrong kind or out of
range, a submission whose row cannot be written, and a stored row that courses cannot be dropped from. -/
inductive Fails (s : Service) (r : Request) : Prop where
  | unlisted {user : String} {row : Row} (lists : r.method = .get) (named : r.userId? = some user)
      (stored : row ∈ s.archive.rows user) (long : row.toJson.isWritable = false)
  | unread {f : Fault} (saves : r.method = .post) (named : r.userId? ≠ none) (raised : Row.ofJson r.json = .error f)
      (abrupt : f.Abrupt)
  | unwritten {row : Row} (saves : r.method = .post) (named : r.userId? ≠ none) (read : Row.ofJson r.json = .ok row)
      (long : row.toJson.isWritable = false)
  | undeleted {user : String} {ids : List Json} {row : Row} (deletes : r.method = .delete)
    (named : r.userId? = some user)
      (valid : Input.idsToDelete? r.json = some ids) (stored : row ∈ s.archive.rows user) (stuck : row.Stuck ids)

theorem not_fails_of_unauthenticated (unknown : r.userId? = none) : ¬Fails s r := by
  intro fails
  cases fails with
  | unlisted _ named => simp [unknown] at named
  | unread _ named => exact named unknown
  | unwritten _ named => exact named unknown
  | undeleted _ named => simp [unknown] at named

theorem fails_list (get : r.method = .get) (named : r.userId? = some user) :
    Fails s r ↔ ∃ row ∈ s.archive.rows user, row.toJson.isWritable = false := by
  constructor
  · intro fails
    cases fails with
    | unlisted _ named' stored long =>
      obtain rfl := Option.some.inj (named.symm.trans named')
      exact ⟨_, stored, long⟩
    | unread saves | unwritten saves | undeleted saves => cases get.symm.trans saves
  · rintro ⟨row, stored, long⟩
    exact .unlisted get named stored long

theorem fails_save (post : r.method = .post) (named : r.userId? = some user) :
    Fails s r ↔ (∃ f, Row.ofJson r.json = .error f ∧ f.Abrupt) ∨
    ∃ row, Row.ofJson r.json = .ok row ∧ row.toJson.isWritable = false := by
  have known : r.userId? ≠ none := by simp [named]
  constructor
  · intro fails
    cases fails with
    | unread _ _ raised abrupt => exact .inl ⟨_, raised, abrupt⟩
    | unwritten _ _ read long => exact .inr ⟨_, read, long⟩
    | unlisted lists | undeleted lists => cases post.symm.trans lists
  · rintro (⟨f, raised, abrupt⟩ | ⟨row, read, long⟩)
    · exact .unread post known raised abrupt
    · exact .unwritten post known read long

theorem fails_delete (delete : r.method = .delete) (named : r.userId? = some user) :
    Fails s r ↔ ∃ ids, Input.idsToDelete? r.json = some ids ∧ ∃ row ∈ s.archive.rows user, row.Stuck ids := by
  constructor
  · intro fails
    cases fails with
    | undeleted _ named' valid stored stuck =>
      obtain rfl := Option.some.inj (named.symm.trans named')
      exact ⟨_, valid, _, stored, stuck⟩
    | unlisted saves | unread saves | unwritten saves => cases delete.symm.trans saves
  · rintro ⟨ids, valid, row, stored, stuck⟩
    exact .undeleted delete named valid stored stuck

/-! ## Answers -/

theorem forUser_unknown (unknown : r.userId? = none) (answer : String → Response × Archive) :
    s.forUser r answer = { response := .unauthenticated, service := s } := by simp only [forUser, unknown]

theorem forUser_known (named : r.userId? = some user) (answer : String → Response × Archive) :
    s.forUser r answer = { response := (answer user).1, service := { s with archive := (answer user).2 } } := by
  simp only [forUser, named]

/-- What a request for a plan is answered to its user. -/
def planAnswer (s : Service) (r : Request) (user : String) : Response × Archive :=
  match r.method with
  | .post => s.saveSemester user r.json
  | .delete => s.deleteCourses user r.json
  | _ => (s.semesters user, s.archive)

theorem PlanRequest.handle_eq (h : PlanRequest r) (s : Service) :
    s.handle r = s.forUser r fun user => s.planAnswer r user := by
  cases h with
  | list get path => simp only [handle, get, path, serve, planAnswer, beq_iff_eq, reduceCtorEq, ↓reduceIte]
  | save post path => simp only [handle, post, path, serve, planAnswer, beq_self_eq_true, ↓reduceIte]
  | delete delete path => simp only [handle, delete, path, serve, planAnswer]

theorem PlanRequest.handle_known (h : PlanRequest r) (named : r.userId? = some user) (s : Service) :
    s.handle r = { response := (s.planAnswer r user).1, service := { s with archive := (s.planAnswer r user).2 } } :=
  (h.handle_eq s).trans (forUser_known named _)

theorem PlanRequest.handle_post (h : PlanRequest r) (post : r.method = .post) (named : r.userId? = some user)
    {body : Json} (json : r.json = body) (s : Service) :
    s.handle r =
    { response := (s.saveSemester user body).1, service := { s with archive := (s.saveSemester user body).2 } } := by
  simp only [h.handle_known named, planAnswer, post, json]

theorem PlanRequest.handle_delete (h : PlanRequest r) (delete : r.method = .delete)
    (named : r.userId? = some user) {body : Json} (json : r.json = body) (s : Service) :
    s.handle r =
    { response := (s.deleteCourses user body).1, service := { s with archive := (s.deleteCourses user body).2 } } := by
  simp only [h.handle_known named, planAnswer, delete, json]

theorem semesters_status (s : Service) (user : String) : (s.semesters user).status =
    if ∀ row ∈ s.archive.rows user, row.toJson.isWritable = true then 200 else 500 := by
  rw [semesters, Response.written_status]
  refine if_congr ?_ rfl rfl
  simp [Archive.document, Json.isWritable_obj]

theorem saveSemester_error {body : Json} {f : Fault} (named : user.isEmpty = false)
    (raised : Row.ofJson body = .error f) : s.saveSemester user body = (.ofFault f, s.archive) := by
  simp only [saveSemester, Archive.save_eq, Archive.submitted, named, Bool.false_eq_true, ↓reduceIte,
    raised, Except.map]

theorem saveSemester_ok {body : Json} {row : Row} (named : user.isEmpty = false) (read : Row.ofJson body = .ok row) :
    s.saveSemester user body = (.written [("semester", row.toJson)],
      { users := Archive.setRows user (Archive.putRow row (s.archive.rows user)) s.archive.users }) := by
  simp only [saveSemester, Archive.save_eq, Archive.submitted, named, Bool.false_eq_true, ↓reduceIte,
    read, Except.map]

theorem row_written (row : Row) : (Json.obj [("semester", row.toJson)]).isWritable = row.toJson.isWritable := by
  simp [Json.isWritable, Json.fieldsWritable]

/-- A deletion of ids that can be looked up drops the courses from the rows of the user, one after the other. -/
theorem delete_rows {ids : List Json} (named : user.isEmpty = false) (keys : ∀ v ∈ ids, v.isKey = true) :
    ((s.archive.delete user (.arr ids)).1.rows user, (s.archive.delete user (.arr ids)).2) =
      Archive.dropFrom ids (s.archive.rows user) := by
  simp only [Archive.delete_own, Archive.dropAll, named, Bool.false_eq_true, ↓reduceIte, Archive.readIds_ok keys]

/-! ## Verdicts -/

/-- The request is clean, or it fails and is answered with an error that is not explained. -/
inductive Verdict (s : Service) (r : Request) : Prop where
  | clean (works : ¬Fails s r) (clean : Clean s r)
  | fails (fails : Fails s r) (status : (s.handle r).response.status = 500)

/-- The answer to its user decides about a request: a value, a refusal without a change, or an error. -/
theorem PlanRequest.verdict_of_answer (h : PlanRequest r) (named : r.userId? = some user)
    (answer : ¬Fails s r ∧ ((s.planAnswer r user).1.status = 200 ∨
        (s.planAnswer r user).1.status = 400 ∧ (s.planAnswer r user).2 = s.archive) ∨
      Fails s r ∧ (s.planAnswer r user).1.status = 500) : Verdict s r := by
  have handled := h.handle_known named s
  rcases answer with ⟨works, status | ⟨status, kept⟩⟩ | ⟨fails, status⟩
  · exact .clean works ⟨by simp [handled, status], fun other => absurd (by simp [handled, status]) other⟩
  · exact .clean works ⟨by simp [handled, status], fun _ user => by simp [handled, kept]⟩
  · exact .fails fails (by rw [handled, status])

theorem PlanRequest.verdict (h : PlanRequest r) (s : Service) : Verdict s r := by
  cases named : r.userId? with
  | none =>
    have handled := (h.handle_eq s).trans (forUser_unknown named _)
    refine .clean (not_fails_of_unauthenticated named) ⟨?_, fun _ user => by rw [handled]⟩
    simp [handled, Response.unauthenticated, Response.error]
  | some user =>
    refine h.verdict_of_answer named ?_
    have nonempty := Request.userId?_ne_empty named
    cases h with
    | list get path =>
      simp only [fails_list get named, planAnswer, get, semesters_status]
      by_cases written : ∀ row ∈ s.archive.rows user, row.toJson.isWritable = true
      · exact .inl ⟨by simpa using written, .inl (if_pos written)⟩
      · exact .inr ⟨by simpa using written, if_neg written⟩
    | save post path =>
      simp only [fails_save post named, planAnswer, post]
      cases read : Row.ofJson r.json with
      | error f =>
        rw [saveSemester_error nonempty read, Response.ofFault_status]
        by_cases accepted : f.isUnacceptable = true
        · simp [accepted, Fault.not_abrupt accepted]
        · have abrupt := (Row.raises_ofJson_known _ f read).resolve_left accepted
          simp [accepted, abrupt]
      | ok row =>
        rw [saveSemester_ok nonempty read, Response.written_status, row_written]
        cases written : row.toJson.isWritable <;> simp [written]
    | delete delete path =>
      simp only [fails_delete delete named, planAnswer, delete]
      cases valid : Input.idsToDelete? r.json with
      | none =>
        obtain ⟨message, eq⟩ := deleteCourses_none valid
        rw [eq]
        simp [Response.invalid, Response.error]
      | some ids =>
        obtain ⟨-, result⟩ := Prod.mk.inj (delete_rows (s := s) nonempty (Input.keys_of_idsToDelete valid))
        rw [deleteCourses_some valid, result]
        simp only [Option.some.injEq, exists_eq_left', ← Archive.dropFrom_error_iff]
        cases (Archive.dropFrom ids (s.archive.rows user)).2 <;> simp [Response.ok]

/-! ## Regular requests -/

/-- All stored rows are sound. -/
def Sound (s : Service) : Prop := ∀ user, ∀ row ∈ s.archive.rows user, row.Sound

/-- What a request submits, if it submits an object, is regular. -/
def Regular (r : Request) : Prop := r.method = .post → ∀ fields, r.json = .obj fields → Row.Regular fields

theorem Sound.not_fails (h : s.Sound) (regular : Regular r) : ¬Fails s r := by
  intro fails
  cases fails with
  | unlisted _ _ stored long => simp [(h _ _ stored).written] at long
  | @unread f saves _ raised abrupt =>
    suffices accepted : f.isUnacceptable = true from Fault.not_abrupt accepted abrupt
    cases body : r.json with
    | obj fields => exact (regular saves fields body).raises_ofJson f (body ▸ raised)
    | _ => rw [body] at raised; cases raised; rfl
  | unwritten saves _ read long =>
    obtain ⟨fields, body, -⟩ := Row.ofJson_eq_ok read
    have sound := (regular saves fields body).sound (body ▸ r.isWritable_json) (body ▸ read)
    simp [sound.written] at long
  | @undeleted _ ids row _ _ _ stored stuck =>
    obtain ⟨f, raised⟩ := Row.dropCourses_error_iff.2 stuck
    obtain ⟨_, n, dropped, -⟩ := (h _ _ stored).dropCourses ids
    simp [dropped] at raised

theorem Sound.update (h : s.Sound) {archive : Archive}
    (other : ∀ other ≠ user, archive.rows other = s.archive.rows other)
    (own : ∀ row ∈ archive.rows user, row.Sound) : Sound { s with archive } := by
  intro u row stored
  by_cases same : u = user
  · exact own row (same ▸ stored)
  · exact h u row (other u same ▸ stored)

/-- Regular requests keep all rows sound. -/
theorem Sound.handle (h : s.Sound) (plan : PlanRequest r) (regular : Regular r) : (s.handle r).service.Sound := by
  rw [plan.handle_eq s]
  cases named : r.userId? with
  | none => rw [forUser_unknown named]; exact h
  | some user =>
    rw [forUser_known named]
    have nonempty := Request.userId?_ne_empty named
    cases plan with
    | list get path => simp only [planAnswer, get]; exact h
    | save post path =>
      simp only [planAnswer, post]
      cases read : Row.ofJson r.json with
      | error f => rw [saveSemester_error nonempty read]; exact h
      | ok row =>
        rw [saveSemester_ok nonempty read]
        obtain ⟨fields, body, -⟩ := Row.ofJson_eq_ok read
        have sound := (regular post fields body).sound (body ▸ r.isWritable_json) (body ▸ read)
        refine h.update (fun other ne => s.archive.rows_setRows_ne ne _) fun row' stored => ?_
        rw [Archive.rows_setRows] at stored
        rcases Archive.mem_putRow stored with rfl | stored
        · exact sound
        · exact h user row' stored
    | delete delete path =>
      simp only [planAnswer, delete]
      cases valid : Input.idsToDelete? r.json with
      | none =>
        obtain ⟨message, eq⟩ := deleteCourses_none valid
        rw [eq]
        exact h
      | some ids =>
        obtain ⟨rows, -⟩ := Prod.mk.inj (delete_rows (s := s) nonempty (Input.keys_of_idsToDelete valid))
        rw [deleteCourses_some valid]
        refine h.update (fun other ne => s.archive.delete_other _ ne) ?_
        rw [rows]
        exact (Archive.dropFrom_sound (h user)).2

/-- The service after requests. -/
def handleAll (s : Service) (rs : List Request) : Service := rs.foldl (fun s r => (s.handle r).service) s

theorem handleAll_pair (s : Service) (r r' : Request) :
    s.handleAll [r, r'] = ((s.handle r).service.handle r').service := rfl

theorem Sound.handleAll {rs : List Request} (h : s.Sound) (plans : ∀ r ∈ rs, PlanRequest r)
    (regular : ∀ r ∈ rs, Regular r) : (s.handleAll rs).Sound := by
  induction rs generalizing s with
  | nil => exact h
  | cons r rs ih =>
    obtain ⟨plan, plans⟩ := List.forall_mem_cons.1 plans
    obtain ⟨reg, regular⟩ := List.forall_mem_cons.1 regular
    exact ih (h.handle plan reg) plans regular

/-- A request of a run and the service that it meets. -/
def Meets (s : Service) (rs : List Request) (t : Service) (r : Request) : Prop :=
  ∃ earlier later, rs = earlier ++ r :: later ∧ t = s.handleAll earlier

/-- In a run of requests about stored semesters, a request is clean exactly if none of the four things happens that
nobody looks after, and otherwise it is answered with an error that is not explained. None of them ever happens if the
run begins with sound rows, as with none, and the requests are regular. -/
theorem plan_requests_clean (s : Service) (rs : List Request) (plans : ∀ r ∈ rs, PlanRequest r) :
    (∀ t r, Meets s rs t r → (Clean t r ↔ ¬Fails t r) ∧ (Fails t r ↔ (t.handle r).response.status = 500)) ∧
      (s.Sound → (∀ r ∈ rs, Regular r) → ∀ t r, Meets s rs t r → Clean t r) := by
  have status_ne {t : Service} {r : Request} (clean : Clean t r) :
      (t.handle r).response.status ≠ 500 := fun failed => by
    simpa [failed] using clean.status
  refine ⟨fun t r meets => ?_, fun sound regular t r meets => ?_⟩
  all_goals obtain ⟨earlier, later, rfl, rfl⟩ := meets
  · cases (plans r (by simp)).verdict (s.handleAll earlier) with
    | clean works clean => exact ⟨iff_of_true clean works, iff_of_false works (status_ne clean)⟩
    | fails fails status =>
      exact ⟨iff_of_false (fun clean => status_ne clean status) (not_not_intro fails), iff_of_true fails status⟩
  · have before : (s.handleAll earlier).Sound :=
      sound.handleAll (fun r' hr => plans r' (by simp [hr])) fun r' hr => regular r' (by simp [hr])
    cases (plans r (by simp)).verdict (s.handleAll earlier) with
    | clean _ clean => exact clean
    | fails fails _ => exact absurd fails (before.not_fails (regular r (by simp)))

/-- A request of a user about stored semesters. -/
def planRequest (method : Method) (target body : String) : Request :=
  { method, target, headers := [("X-User-Id", "ada"), ("Content-Type", "application/json")], body }

theorem planRequest_user (method : Method) (target body : String) :
    (planRequest method target body).userId? = some "ada" := by
  have user : (planRequest .get "" "").userId? = some "ada" := by decide +kernel
  exact user

/-- A semester with credits in words, a course that is deleted again, and the list of what is left. -/
theorem plan_requests_clean_dropped :
    let empty : Service := { feed := { path := "" } }
    let store := planRequest .post "/semesters" ("\x7b\"id\":\"7\",\"season\":\"Fall\",\"year\":2024.5,\"courses\":[" ++
      "\x7b\"id\":\"c\",\"code\":\"X\",\"credits\":3\x7d,\x7b\"id\":2,\"code\":\"Y\",\"credits\":\"4\"\x7d]\x7d")
    let drop := planRequest .delete "/semesters/courses" "\x7b\"course_ids\":[\"c\"]\x7d"
    let list := planRequest .get "/semesters" ""
    let after := empty.handleAll [store, drop]
    (∀ r ∈ [store, drop, list], PlanRequest r) ∧ empty.Sound ∧ (∀ r ∈ [store, drop, list], Regular r) ∧
      (after.archive.rows "ada").map (fun row => (row.courses.length, row.total)) = [(1, 4)] ∧ Clean after list := by
  intro empty store drop list after
  have sound : empty.Sound := fun _ _ stored => by cases stored
  have stores : PlanRequest store := .save rfl (by decide +kernel)
  have drops : PlanRequest drop := .delete rfl (by decide +kernel)
  have lists : PlanRequest list := .list rfl (by decide +kernel)
  have stored : store.json = .obj [("id", .str "7"), ("season", .str "Fall"), ("year", .real 2024.5), ("courses", .arr [
      .obj [("id", .str "c"), ("code", .str "X"), ("credits", .int 3)],
      .obj [("id", .int 2), ("code", .str "Y"), ("credits", .str "4")]])] := by decide +kernel
  have dropped : drop.json = .obj [("course_ids", .arr [.str "c"])] := by decide +kernel
  have regular : Regular store := by
    intro _ fields h
    obtain rfl := Json.obj.inj (stored.symm.trans h)
    decide +kernel
  have plans : ∀ r ∈ [store, drop, list], PlanRequest r := by
    simp only [List.forall_mem_cons]
    exact ⟨stores, drops, lists, List.forall_mem_nil _⟩
  have regular : ∀ r ∈ [store, drop, list], Regular r := by
    simp only [List.forall_mem_cons]
    exact ⟨regular, nofun, nofun, List.forall_mem_nil _⟩
  have left : (after.archive.rows "ada").map (fun row => (row.courses.length, row.total)) = [(1, 4)] := by
    have steps : after = ((empty.handle store).service.handle drop).service := handleAll_pair ..
    rw [steps, stores.handle_post rfl (planRequest_user ..) stored,
      drops.handle_delete rfl (planRequest_user ..) dropped]
    decide +kernel
  exact ⟨plans, sound, regular, left,
    (plan_requests_clean empty _ plans).2 sound regular after list ⟨[store, drop], [], rfl, rfl⟩⟩

/-- A course whose id is a list can be stored but not looked up: a deletion ends in an error half-way, after the rows in
front of it were changed. -/
theorem plan_requests_unclean_deletion :
    let empty : Service := { feed := { path := "" } }
    let first := planRequest .post "/semesters"
      "\x7b\"id\":202400,\"season\":\"Fall\",\"year\":2024,\"courses\":[\x7b\"id\":\"c1\",\"code\":\"X\"\x7d]\x7d"
    let second := planRequest .post "/semesters"
      "\x7b\"id\":202501,\"season\":\"Fall\",\"year\":2025,\"courses\":[\x7b\"id\":[\"c2\"],\"code\":\"Y\"\x7d]\x7d"
    let drop := planRequest .delete "/semesters/courses" "\x7b\"course_ids\":[\"c1\"]\x7d"
    let before := empty.handleAll [first, second]
    let after := (before.handle drop).service
    (∀ r ∈ [first, second, drop], PlanRequest r) ∧ (before.handle drop).response.status = 500 ∧
      (before.archive.rows "ada").map (fun row => (row.id, row.courses.length)) = [(202400, 1), (202501, 1)] ∧
      (after.archive.rows "ada").map (fun row => (row.id, row.courses.length)) =
      [(202400, 0), (202501, 1)] ∧ ¬Clean before drop := by
  intro empty first second drop before after
  have firsts : PlanRequest first := .save rfl (by decide +kernel)
  have seconds : PlanRequest second := .save rfl (by decide +kernel)
  have drops : PlanRequest drop := .delete rfl (by decide +kernel)
  have stored : first.json = .obj [("id", .int 202400), ("season", .str "Fall"), ("year", .int 2024),
      ("courses", .arr [.obj [("id", .str "c1"), ("code", .str "X")]])] := by decide +kernel
  have stored' : second.json = .obj [("id", .int 202501), ("season", .str "Fall"), ("year", .int 2025),
      ("courses", .arr [.obj [("id", .arr [.str "c2"]), ("code", .str "Y")]])] := by decide +kernel
  have dropped : drop.json = .obj [("course_ids", .arr [.str "c1"])] := by decide +kernel
  have begun : before =
    { empty with archive := (({ empty with archive := (empty.saveSemester "ada" first.json).2 } : Service).saveSemester
      "ada" second.json).2 } := by
    have steps : before = ((empty.handle first).service.handle second).service := handleAll_pair ..
    rw [steps, firsts.handle_post rfl (planRequest_user ..) rfl, seconds.handle_post rfl (planRequest_user ..) rfl]
  have handled := drops.handle_delete rfl (planRequest_user ..) dropped before
  rw [stored, stored'] at begun
  have status : (before.handle drop).response.status = 500 := by rw [handled, begun]; decide +kernel
  refine ⟨?_, status, ?_, ?_, fun clean => ?_⟩
  · simp only [List.forall_mem_cons]
    exact ⟨firsts, seconds, drops, List.forall_mem_nil _⟩
  · rw [begun]; decide +kernel
  · rw [show after = (before.handle drop).service from rfl, handled, begun]; decide +kernel
  · simpa [status] using clean.status

end Service
end DegreePlan
