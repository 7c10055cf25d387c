import DegreePlan.Proofs.Archive
import DegreePlan.Proofs.Lookup
import DegreePlan.Proofs.Service.Evaluation

/-!
# Users apart

Whatever is done with stored semesters, directly, through the backend of a user or by a request, is one operation
for one user. What it does is told by the rows of this user, and it changes no others, so a user of a shared
service is answered as one who has the service alone.
-/

namespace DegreePlan

/-! ## Operations -/

namespace Archive

variable {a b : Archive} {user other : String}

@[simp] theorem rows_setRows (a : Archive) (user : String) (rs : List Row) :
    ({ users := setRows user rs a.users } : Archive).rows user = rs := by simp [rows, lookup_setRows]

theorem rows_setRows_ne (a : Archive) (h : other ≠ user) (rs : List Row) :
    ({ users := setRows user rs a.users } : Archive).rows other = a.rows other := by simp [rows, lookup_setRows_ne h]

/-- The row that a submission of a user makes. -/
def submitted (user : String) (payload : Json) : Except Fault Row :=
  if user.isEmpty then .error (.access .noUser) else Row.ofJson payload

/-- What a deletion does to the rows of its user, and how many courses it deletes. -/
def dropAll (user : String) (ids : Json) (rows : List Row) : List Row × Except Fault Nat :=
  if user.isEmpty then (rows, .error (.access .noUser))
  else match readIds ids with
    | .error f => (rows, .error f)
    | .ok ids => dropFrom ids rows

theorem save_eq (a : Archive) (user : String) (payload : Json) :
    a.save user payload =
      (submitted user payload).map fun r => (r, { users := setRows user (putRow r (a.rows user)) a.users }) := by
  unfold save submitted
  split
  · rfl
  · cases Row.ofJson payload <;> rfl

theorem delete_own (a : Archive) (user : String) (ids : Json) :
    ((a.delete user ids).1.rows user, (a.delete user ids).2) = dropAll user ids (a.rows user) := by
  unfold delete dropAll
  split
  · rfl
  · cases readIds ids with
    | error f => rfl
    | ok ids =>
      dsimp only
      split
      · next unknown => simp [rows, Option.isNone_iff_eq_none.1 unknown, dropFrom]
      · simp

theorem delete_other (a : Archive) (ids : Json) (h : other ≠ user) :
    (a.delete user ids).1.rows other = a.rows other := by
  unfold delete
  split
  · rfl
  · split
    · rfl
    · split
      · rfl
      · exact a.rows_setRows_ne h _

theorem forget_rows (a : Archive) (user other : String) :
    (a.forget user).rows other = if other = user then [] else a.rows other := by
  unfold forget rows
  rw [lookup_filter_key (· != user) a.users other]
  by_cases h : other = user <;> simp [h]

/-- What can be done with the stored semesters of a user. -/
inductive Operation where
  | save (payload : Json)
  | delete (ids : Json)
  | read
  | forget

/-- What comes of an operation. -/
inductive Outcome where
  | stored (r : Row)
  | removed (n : Nat)
  | rows (rows : List Row)
  | forgotten
  | accepted

/-- Carries out an operation for a user. -/
def operate (a : Archive) (user : String) : Operation → Except Fault Outcome × Archive
  | .save payload =>
    match a.save user payload with
    | .ok (r, b) => (.ok (.stored r), b)
    | .error f => (.error f, a)
  | .delete ids => ((a.delete user ids).2.map .removed, (a.delete user ids).1)
  | .read => (.ok (.rows (a.rows user)), a)
  | .forget => (.ok .forgotten, a.forget user)

theorem operate_save (a : Archive) (user : String) (payload : Json) :
    a.operate user (.save payload) = match submitted user payload with
      | .ok r => (.ok (.stored r), { users := setRows user (putRow r (a.rows user)) a.users })
      | .error f => (.error f, a) := by
  rw [operate, save_eq]
  cases submitted user payload <;> rfl

/-- What comes of an operation is told by the rows of its user. -/
theorem operate_own (h : a.rows user = b.rows user) (op : Operation) :
    (a.operate user op).1 = (b.operate user op).1 ∧
    (a.operate user op).2.rows user = (b.operate user op).2.rows user := by
  cases op with
  | save payload =>
    simp only [operate_save]
    cases submitted user payload with
    | error f => exact ⟨rfl, h⟩
    | ok r =>
      refine ⟨rfl, ?_⟩
      rw [rows_setRows, rows_setRows, h]
  | delete ids =>
    have same := (a.delete_own user ids).trans ((congrArg (dropAll user ids) h).trans (b.delete_own user ids).symm)
    obtain ⟨kept, count⟩ := Prod.mk.inj same
    exact ⟨congrArg (Except.map Outcome.removed) count, kept⟩
  | read => exact ⟨congrArg (fun rs => Except.ok (Outcome.rows rs)) h, h⟩
  | forget => exact ⟨rfl, by simp [operate, forget_rows]⟩

/-- An operation changes the rows of its user alone. -/
theorem operate_other (h : other ≠ user) (op : Operation) : (a.operate user op).2.rows other = a.rows other := by
  cases op with
  | save payload =>
    rw [operate_save]
    cases submitted user payload with
    | error f => rfl
    | ok r => exact a.rows_setRows_ne h _
  | delete ids => exact a.delete_other ids h
  | read => rfl
  | forget => simp [operate, forget_rows, h]

end Archive

/-! ## Requests -/

/-- The ids that a body names for deletion, if it names any in order. -/
def Input.idsToDelete? : Json → Option (List Json)
  | .obj fields =>
    match Json.fieldOf fields "course_ids" with
    | .arr items => readIds? items
    | _ => none
  | _ => none

/-- The route leads to stored semesters. -/
def Route.holdsPlans : Route → Bool
  | semesters | semesterCourses => true
  | _ => false

/-- The user whose stored semesters a request is about. -/
def Request.planUser? (r : Request) : Option String :=
  match Destination.find r.method r.path with
  | .route route => if route.holdsPlans then r.userId? else none
  | _ => none

namespace Service

open Archive

variable {s t : Service} {user other : String} {r : Request} {route : Route}

/-- The service after an operation for a user. -/
def after (s : Service) (user : String) (op : Operation) : Service :=
  { s with archive := (s.archive.operate user op).2 }

/-- A reply is made from the outcome of one operation for a user. -/
def Operates (user : String) (reply : Service → Reply) : Prop :=
  ∃ (op : Operation) (log : List String) (answer : Except Fault Outcome → Response), ∀ s,
    reply s = { log, response := answer (s.archive.operate user op).1, service := s.after user op }

/-- A refusal needs no more than reading. -/
theorem Operates.refusal (user : String) (response : Response) : Operates user fun s => { response, service := s } :=
  ⟨.read, [], fun _ => response, fun _ => rfl⟩

theorem Operates.headers {reply : Service → Reply} (h : Operates user reply) :
    Operates user fun s => { reply s with response := { status := (reply s).response.status } } := by
  obtain ⟨op, log, answer, eq⟩ := h
  exact ⟨op, log, fun outcome => { status := (answer outcome).status }, fun s => by simp only [eq s]⟩

/-- What a request is answered when its operation came to something. -/
def answerTo : Except Fault Outcome → Response
  | .ok (.rows rows) => .written [("semesters", .obj (rows.map fun r => (toString r.id, r.toJson)))]
  | .ok (.stored row) => .written [("semester", row.toJson)]
  | .ok (.removed n) => .ok [("removed", .int n)]
  | _ => { status := 500 }

/-- What a submission is answered: its faults are explained. -/
def answerToSubmission : Except Fault Outcome → Response
  | .error f => .ofFault f
  | outcome => answerTo outcome

theorem operates_semesters (user : String) :
    Operates user fun s => { response := s.semesters user, service := { s with archive := s.archive } } :=
  ⟨.read, [], answerTo, fun _ => by simp only [after, operate, answerTo]; rfl⟩

theorem operates_saveSemester (user : String) (body : Json) :
    Operates user fun s =>
      { response := (s.saveSemester user body).1, service := { s with archive := (s.saveSemester user body).2 } } := by
  refine ⟨.save body, [], answerToSubmission, fun s => ?_⟩
  simp only [after, operate_save, saveSemester, save_eq]
  cases submitted user body <;> simp only [Except.map, answerToSubmission, answerTo]

/-- A body that names no ids in order is refused. -/
theorem deleteCourses_none {body : Json} (h : Input.idsToDelete? body = none) :
    ∃ message, ∀ (s : Service) (user : String), s.deleteCourses user body = (.invalid message, s.archive) := by
  unfold Input.idsToDelete? at h
  split at h
  · split at h
    · next ids => exact ⟨_, fun s user => by simp only [deleteCourses, ids, h]; rfl⟩
    · exact ⟨_, fun s user => by simp only [deleteCourses]; rfl⟩
  · exact ⟨_, fun s user => by simp only [deleteCourses]; rfl⟩

theorem deleteCourses_some {body : Json} {ids : List Json} (h : Input.idsToDelete? body = some ids)
    (s : Service) (user : String) :
    s.deleteCourses user body =
      (match (s.archive.delete user (.arr ids)).2 with
        | .ok n => .ok [("removed", .int n)]
        | .error _ => { status := 500 }, (s.archive.delete user (.arr ids)).1) := by
  unfold Input.idsToDelete? at h
  split at h
  · split at h
    · next listed =>
      simp only [deleteCourses, listed, h]
      rcases s.archive.delete user (.arr ids) with ⟨_, _ | _⟩ <;> rfl
    · cases h
  · cases h

theorem operates_deleteCourses (user : String) (body : Json) :
    Operates user fun s =>
      { response := (s.deleteCourses user body).1, service := { s with
          archive := (s.deleteCourses user body).2 } } := by
  cases read : Input.idsToDelete? body with
  | none =>
    obtain ⟨message, eq⟩ := deleteCourses_none read
    simp only [eq]
    exact .refusal user _
  | some ids =>
    refine ⟨.delete (.arr ids), [], answerTo, fun s => ?_⟩
    simp only [after, operate, deleteCourses_some read]
    cases (s.archive.delete user (.arr ids)).2 <;> rfl

theorem operates_serve (holds : route.holdsPlans = true) (named : r.userId? = some user) :
    Operates user (·.serve route r) := by
  cases route with
  | semesters =>
    simp only [serve, forUser, named]
    cases r.method == .post with
    | true => exact operates_saveSemester user r.json
    | false => exact operates_semesters user
  | semesterCourses =>
    simp only [serve, forUser, named]
    exact operates_deleteCourses user r.json
  | _ => cases holds

/-- A request about the stored semesters of a user is one operation for this user. -/
theorem operates_handle (h : r.planUser? = some user) : Operates user (·.handle r) := by
  unfold Request.planUser? at h
  split at h
  · next route found =>
    split at h
    · next holds =>
      simp only [handle, found]
      cases r.method with
      | options => exact .refusal user _
      | head => exact (operates_serve holds h).headers
      | _ => exact operates_serve holds h
    · cases h
  · cases h

theorem serve_archive (h : route.holdsPlans = true → r.userId? = none) :
    (s.serve route r).service.archive = s.archive := by
  cases route with
  | health | file => rfl
  | evaluate | course | recommend => simp only [serve, withCatalog_eq]; rfl
  | semesters | semesterCourses => simp only [serve, forUser, h rfl]

/-- Any other request leaves the archive as it was. -/
theorem handle_archive (h : r.planUser? = none) : (s.handle r).service.archive = s.archive := by
  unfold Request.planUser? at h
  unfold handle
  split
  · rfl
  · rfl
  · rfl
  · next route found =>
    simp only [found, ite_eq_right_iff] at h
    split
    · rfl
    · exact serve_archive h
    · exact serve_archive h

end Service

/-! ## Accesses -/

/-- What the backend of a user can be asked for. -/
inductive Backend where
  | save (payload : Json)
  | delete (ids : Json)
  | load

namespace Backend

open Archive

/-- The operation for the user of the backend. -/
def operation : Backend → Operation
  | save payload => .save payload
  | delete ids => .delete ids
  | load => .read

/-- A backend tells of a write only that it was accepted. -/
def answer : Outcome → Outcome
  | .stored _ | .removed _ => .accepted
  | outcome => outcome

end Backend

/-- A way to get at stored semesters: directly, through the backend of a user, or by a request to the service. -/
inductive Access where
  | direct (user : String) (op : Archive.Operation)
  | backend (user : String) (call : Backend)
  | request (r : Request)

namespace Access

open Archive Service

variable {s t : Service} {user : String}

/-- What an access is answered. -/
inductive Answer where
  | outcome (result : Except Fault Outcome)
  | response (log : List String) (response : Response)

/-- The user whose stored semesters an access is about. -/
def user? : Access → Option String
  | direct user _ | backend user _ => some user
  | request r => r.planUser?

/-- Carries out an access. -/
def run (s : Service) : Access → Answer × Service
  | direct user op => (.outcome (s.archive.operate user op).1, s.after user op)
  | backend user call =>
    (.outcome ((s.archive.operate user call.operation).1.map Backend.answer), s.after user call.operation)
  | request r => (.response (s.handle r).log (s.handle r).response, (s.handle r).service)

/-- An access about the stored semesters of a user is one operation for this user. -/
theorem run_operates {a : Access} (h : a.user? = some user) :
    ∃ (op : Operation) (answer : Except Fault Outcome → Answer), ∀ s : Service,
      a.run s = (answer (s.archive.operate user op).1, s.after user op) := by
  cases a with
  | direct user' op => cases h; exact ⟨op, .outcome, fun _ => rfl⟩
  | backend user' call =>
    cases h; exact ⟨call.operation, fun result => .outcome (result.map Backend.answer), fun _ => rfl⟩
  | request r =>
    obtain ⟨op, log, answer, eq⟩ := operates_handle h
    exact ⟨op, fun result => .response log (answer result), fun s => by simp only [run, eq s]⟩

/-- An access is answered from the rows of its user. -/
theorem run_own {a : Access} (h : a.user? = some user) (agree : s.archive.rows user = t.archive.rows user) :
    (a.run s).1 = (a.run t).1 ∧ (a.run s).2.archive.rows user = (a.run t).2.archive.rows user := by
  obtain ⟨op, answer, eq⟩ := run_operates h
  obtain ⟨outcome, rows⟩ := operate_own agree op
  rw [eq s, eq t]
  exact ⟨congrArg answer outcome, rows⟩

/-- An access leaves the rows of everybody else as they were. -/
theorem run_other {a : Access} (h : a.user? ≠ some user) : (a.run s).2.archive.rows user = s.archive.rows user := by
  cases owner : a.user? with
  | some other =>
    obtain ⟨op, answer, eq⟩ := run_operates owner
    rw [eq s]
    exact operate_other (fun same => h (owner.trans (congrArg some same.symm))) op
  | none =>
    cases a with
    | request r => exact congrArg (·.rows user) (handle_archive owner)
    | _ => cases owner

/-! ## Runs -/

/-- The answers to the accesses of a user in a run of accesses of many. -/
def answers (user : String) (s : Service) : List Access → List Answer
  | [] => []
  | a :: as => (if a.user? = some user then [(a.run s).1] else []) ++ answers user (a.run s).2 as

/-- The service after a run. -/
def after (s : Service) (as : List Access) : Service := as.foldl (fun s a => (a.run s).2) s

/-- The accesses of a user. -/
def own (user : String) (as : List Access) : List Access := as.filter (·.user? = some user)

theorem own_cons_own {a : Access} (h : a.user? = some user) (as : List Access) :
    own user (a :: as) = a :: own user as := by
  simp [own, h]

theorem own_cons_other {a : Access} (h : a.user? ≠ some user) (as : List Access) :
    own user (a :: as) = own user as := by
  simp [own, h]

/-- A user who begins with the same rows and asks for the same is answered alike and ends with the same rows. -/
theorem run_alone (as : List Access) (agree : s.archive.rows user = t.archive.rows user) :
    answers user s as = answers user t (own user as) ∧
      (after s as).archive.rows user = (after t (own user as)).archive.rows user := by
  induction as generalizing s t with
  | nil => exact ⟨rfl, agree⟩
  | cons a as ih =>
    by_cases mine : a.user? = some user
    · obtain ⟨answer, rows⟩ := run_own mine agree
      obtain ⟨answers_eq, rows_eq⟩ := ih rows
      rw [own_cons_own mine]
      refine ⟨?_, rows_eq⟩
      simp only [answers, mine, ↓reduceIte, answer, answers_eq]
    · rw [own_cons_other mine]
      obtain ⟨answers_eq, rows_eq⟩ := ih ((run_other mine).trans agree)
      refine ⟨?_, rows_eq⟩
      rw [answers, if_neg mine, List.nil_append, answers_eq]

/-- The users of a service are apart: in every run, each user is answered and is left with the rows as if nobody else
had asked for anything. So a user gets the same answers and is left with the same rows in all services that hold the
same rows of this user, whoever else there is and whatever they ask for, and no access reaches the rows of somebody
else. -/
theorem users_apart (user : String) (s : Service) (as : List Access) :
    (answers user s as = answers user s (own user as) ∧
        (after s as).archive.rows user = (after s (own user as)).archive.rows user) ∧
      (∀ (t : Service) (bs : List Access), s.archive.rows user = t.archive.rows user → own user as = own user bs →
        answers user s as = answers user t bs ∧ (after s as).archive.rows user = (after t bs).archive.rows user) ∧
      ∀ (a : Access) (t : Service), a.user? ≠ some user →
        (a.run t).2.archive.rows user = t.archive.rows user := by
  refine ⟨run_alone as rfl, fun t bs agree same => ?_, fun a t => run_other⟩
  obtain ⟨answers_as, rows_as⟩ := run_alone (t := t) as agree
  obtain ⟨answers_bs, rows_bs⟩ := run_alone (s := t) (t := t) bs rfl
  rw [answers_as, rows_as, answers_bs, rows_bs, same]
  exact ⟨rfl, rfl⟩

/-- A newcomer among others: one of them has a plan, asks in between, is refused and is forgotten. -/
theorem users_apart_newcomer :
    let winter : Row :=
      { id := 202400, term := { season := "Winter", year := 2024 }, courses := [], total := 0, gpa := 0,
        maxCredits := 18, isActive := true }
    let empty : Service := { feed := { path := "", file := none } }
    let shared : Service := { empty with archive := { users := [("bob", [winter])] } }
    let ask (method : Method) (target user body : String) : Access :=
      .request { method, target, headers := [("X-User-Id", user), ("Content-Type", "application/json")], body }
    let store := ask .post "/semesters" " ada " "\x7b\"id\": 202501, \"season\": \"Fall\", \"year\": 2025\x7d"
    let list := ask .get "/semesters" "ada" ""
    let as : List Access :=
      [.backend "bob" (.delete (.arr [.arr []])), store, .direct "bob" (.save .null),
        ask .get "/semesters" "bob" "", list, .direct "bob" .forget]
    shared.archive.rows "ada" = empty.archive.rows "ada" ∧ own "ada" as = own "ada" [store, list] ∧
      (answers "ada" shared as).length = 2 ∧ (after shared as).archive.users.map (·.1) = ["ada"] ∧
      (answers "ada" shared as = answers "ada" empty [store, list] ∧
        (after shared as).archive.rows "ada" = (after empty [store, list]).archive.rows "ada") := by
  intro winter empty shared ask store list as
  have none_yet : shared.archive.rows "ada" = empty.archive.rows "ada" := rfl
  have asked : own "ada" as = own "ada" [store, list] := by
    have stores : store.user? = some "ada" := by decide +kernel
    have lists : list.user? = some "ada" := by decide +kernel
    have other {a : Access} (h : a.user? = some "bob") : a.user? ≠ some "ada" := by simp [h]
    have asks : (ask .get "/semesters" "bob" "").user? = some "bob" := by decide +kernel
    rw [own_cons_other (other rfl), own_cons_own stores, own_cons_other (other rfl), own_cons_other (other asks),
      own_cons_own lists, own_cons_other (other rfl), own_cons_own stores, own_cons_own lists]
  exact ⟨none_yet, asked, by decide +kernel, by decide +kernel,
    (users_apart "ada" shared as).2.1 empty [store, list] none_yet asked⟩

end Access
end DegreePlan
