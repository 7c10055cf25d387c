import DegreePlan.Proofs.Archive.Rows
import DegreePlan.Proofs.Plan.Reachable
import DegreePlan.Proofs.Service.Partition

/-!
# Totals of stored semesters

The totals of a row are computed from its courses whenever these change, so in every run they are those of its courses.
They are also those of the plan: the row of a semester has the totals that the semester reports, and dropping courses
from the row leaves the courses and the totals that removing them from the semester leaves.
-/

namespace DegreePlan

/-! ## Rows add up -/

namespace Row

variable {payload : Json} {r : Row}

/-- The totals of a row are those of its courses. Only where the average is out of range, the row may have another. -/
structure AddsUp (r : Row) : Prop where
  total : CourseRecord.total r.courses = .ok r.total
  gpa : Gives (· = r.gpa) Fault.OutOfRange (CourseRecord.average r.courses)

theorem addsUp_of_ofJson (h : ofJson payload = .ok r) : r.AddsUp := by
  obtain ⟨-, -, -, -, -, total, average, -⟩ := ofJson_eq_ok h
  exact ⟨total, by rw [average]; exact .ok rfl⟩

/-- A row adds up after courses were dropped from it, even when this was broken off. -/
theorem AddsUp.dropCourses (h : r.AddsUp) (ids : List Json) : (r.dropCourses ids).1.AddsUp := by
  unfold Row.dropCourses
  split
  · exact h
  · next courses kept =>
    -- the credits of all courses can be summed, so those of the rest can; only the average may break off
    have sub : courses.Sublist r.courses := keep_eq_ok kept ▸ List.filter_sublist
    obtain ⟨n, total⟩ := CourseRecord.total_ok_of_sublist h.total sub
    simp only [total]
    split
    · next f raised => exact ⟨total, by rw [raised]; exact .error (CourseRecord.raises_average total f raised)⟩
    · next x average => exact ⟨total, by rw [average]; exact .ok rfl⟩

end Row

namespace Archive

variable {a : Archive}

/-- All rows of all users add up. -/
def AddsUp (a : Archive) : Prop := ∀ user, ∀ r ∈ a.rows user, r.AddsUp

theorem addsUp_dropFrom {ids : List Json} {rows : List Row} (h : ∀ r ∈ rows, r.AddsUp) :
    ∀ r ∈ (dropFrom ids rows).1, r.AddsUp := by
  induction rows with
  | nil => exact h
  | cons r rows ih =>
    obtain ⟨hr, hrows⟩ := List.forall_mem_cons.1 h
    have dropped := hr.dropCourses ids
    rw [dropFrom]
    generalize r.dropCourses ids = result at dropped
    rcases result with ⟨r', f | n⟩
    · exact List.forall_mem_cons.2 ⟨dropped, hrows⟩
    · exact List.forall_mem_cons.2 ⟨dropped, ih hrows⟩

theorem addsUp_dropAll {user : String} {ids : Json} {rows : List Row} (h : ∀ r ∈ rows, r.AddsUp) :
    ∀ r ∈ (dropAll user ids rows).1, r.AddsUp := by
  unfold dropAll
  split
  · exact h
  · split
    · exact h
    · exact addsUp_dropFrom h

/-- Every operation keeps all rows adding up, whether it succeeds or not. -/
theorem AddsUp.operate (h : a.AddsUp) (user : String) (op : Operation) : (a.operate user op).2.AddsUp := by
  intro other
  -- an operation touches the rows of its own user alone
  by_cases own : other = user
  · subst own
    cases op with
    | save payload =>
      rw [operate_save]
      cases made : submitted other payload with
      | error f => exact h other
      | ok r =>
        have sum : r.AddsUp := by
          unfold submitted at made
          split at made
          · cases made
          · exact Row.addsUp_of_ofJson made
        rw [rows_setRows]
        intro x hx
        rcases mem_putRow hx with rfl | hx
        · exact sum
        · exact h other x hx
    | delete ids =>
      have rows := congrArg Prod.fst (a.delete_own other ids)
      dsimp only at rows
      simp only [Archive.operate, rows]
      exact addsUp_dropAll (h other)
    | read => exact h other
    | forget => simp [Archive.operate, forget_rows]
  · rw [operate_other own]
    exact h other

end Archive

namespace Access

variable {s : Service}

/-- In every run of accesses by many users all rows keep adding up. -/
theorem addsUp_after (h : s.archive.AddsUp) (as : List Access) : (after s as).archive.AddsUp := by
  induction as generalizing s with
  | nil => exact h
  | cons a as ih =>
    refine ih ?_
    cases owner : a.user? with
    | some user =>
      obtain ⟨op, answer, eq⟩ := run_operates owner
      simp only [eq s]
      exact h.operate user op
    | none =>
      intro user
      rw [run_other (by simp [owner])]
      exact h user

end Access

/-! ## Rows of semesters -/

/-- The semester without the courses of these ids. -/
def Semester.dropping (s : Semester) (ids : List Json) : Semester :=
  { s with courses := s.courses.filter fun e => !e.id.isIn ids }

namespace Row

variable {r : Row} {s : Semester} {json : Json}

/-- The row has the courses of a semester, in order, and the totals that the semester reports. -/
structure Reports (r : Row) (s : Semester) : Prop where
  id : r.id = s.id
  courses : r.courses = s.courses.map Entry.fields
  total : r.total = s.total
  gpa : s.average = .ok r.gpa

theorem reports_of_ofJson (hj : s.toJson = .ok json) (hr : ofJson json = .ok r) : r.Reports s := by
  obtain ⟨gpa, average, eq⟩ := ofJson_semester hj
  rw [eq] at hr
  split at hr
  · cases hr
  · obtain ⟨n, -, h⟩ := bind_eq_ok.1 hr
    cases h
    exact ⟨rfl, rfl, rfl, average⟩

/-- Courses that can be looked up are dropped from the row as from the semester, as long as there is an average. -/
theorem Reports.dropCourses (h : r.Reports s) (keys : ∀ e ∈ s.courses, e.id.isKey = true)
    (ids : List Json) {x : Float} (average : (s.dropping ids).average = .ok x) :
    ∃ r', r.dropCourses ids = (r', .ok (r.courses.length - (s.dropping ids).courses.length)) ∧
      r'.Reports (s.dropping ids) := by
  have left : r.left ids = (s.dropping ids).courses.map Entry.fields := by
    rw [Row.left, h.courses, List.filter_map]
    rfl
  have kept : keep ids r.courses = .ok ((s.dropping ids).courses.map Entry.fields) := by
    rw [keep_ok, left]
    rw [h.courses]
    exact List.forall_mem_map.2 keys
  have stored : CourseRecord.average ((s.dropping ids).courses.map Entry.fields) = .ok x :=
    (CourseRecord.average_fields _).trans average
  refine ⟨{ r with
      courses := (s.dropping ids).courses.map Entry.fields, total := (s.dropping ids).total, gpa := x }, ?_,
    h.id, rfl, rfl, average⟩
  simp only [Row.dropCourses, kept, CourseRecord.total_fields, stored, List.length_map]
  rfl

end Row

namespace Archive

variable {a b : Archive} {user : String} {r : Row} {s : Semester} {json : Json}

theorem save_ok_iff : (∃ r b, a.save user json = .ok (r, b)) ↔ user ≠ "" ∧ ∃ r, Row.ofJson json = .ok r := by
  rw [save_eq, submitted]
  by_cases anonymous : user = ""
  · simp [anonymous, Except.map]
  · cases Row.ofJson json <;> simp [Except.map, anonymous]

theorem mem_rows_of_save (h : a.save user json = .ok (r, b)) : r ∈ b.rows user := by
  rw [(save_eq_ok h).2.1]
  exact mem_putRow_self r _

/-- The archive takes a semester exactly if its season has a name and its limit of credits is a number. -/
theorem save_semester_iff (hj : s.toJson = .ok json) : (∃ r b, a.save user json = .ok (r, b)) ↔
    user ≠ "" ∧ s.term.season ≠ "" ∧ ∃ n, (s.maxCredits.orElse (.int 18)).toInteger = .ok n := by
  obtain ⟨gpa, -, eq⟩ := Row.ofJson_semester hj
  rw [save_ok_iff, eq]
  by_cases unnamed : s.term.season = ""
  · simp [unnamed]
  · simp [unnamed]

/-- If no row of a user is stuck, courses are dropped from all of them. -/
theorem delete_ok {ids : List Json} (known : user ≠ "") (keys : ∀ v ∈ ids, v.isKey = true)
    (free : ∀ t ∈ a.rows user, ¬t.Stuck ids) :
    (∃ n, (a.delete user (.arr ids)).2 = .ok n) ∧
      ∀ t ∈ a.rows user, (t.dropCourses ids).1 ∈ (a.delete user (.arr ids)).1.rows user := by
  have own := a.delete_own user (.arr ids)
  simp only [dropAll, String.isEmpty_iff, known, ↓reduceIte, readIds_ok keys] at own
  obtain ⟨rows, result⟩ := Prod.mk.inj own
  cases dropped : (dropFrom ids (a.rows user)).2 with
  | error f =>
    obtain ⟨t, ht, stuck⟩ := dropFrom_error_iff.1 ⟨f, dropped⟩
    exact absurd stuck (free t ht)
  | ok n =>
    refine ⟨⟨n, result.trans dropped⟩, fun t ht => ?_⟩
    obtain ⟨t', mem, m, drop⟩ := exists_of_forall₂ (dropFrom_eq_ok (Prod.ext rfl dropped)) ht
    rw [rows, drop]
    exact mem

end Archive

/-! ## Removing courses from a plan -/

namespace Plan

variable {p : Plan} {s : Semester}

/-- The plan after courses were removed from a semester, one after the other. -/
def removeAll (p : Plan) (semester : Int) (ids : List Json) : Except Fault Plan :=
  ids.foldlM (fun p id => (·.2) <$> p.removeCourse (.int semester) id) p

/-- A removal from a semester of a valid plan is never refused. -/
theorem Valid.removeCourse_ok (h : p.Valid) (hs : s ∈ p.semesters) (id : Json) :
    ∃ r q, p.removeCourse (.int s.id) id = .ok (r, q) ∧ q.Valid ∧
      { s with courses := s.without id } ∈ q.semesters := by
  have found : p.lookup (.int s.id) = .ok (some s) :=
    lookup_eq_ok.2 ⟨rfl, semester?_of_mem h.ids hs (Json.same_refl _)⟩
  cases held : s.find? id with
  | none =>
    have removed : p.removeCourse (.int s.id) id = .ok (none, p) := by
      simp [Plan.removeCourse, found, held, pure, Except.pure]
    have same : s.without id = s.courses := List.filter_eq_self.2 fun e he => by
      simpa using List.find?_eq_none.1 held e he
    exact ⟨none, p, removed, h, by rw [same]; exact hs⟩
  | some e =>
    have removed : p.removeCourse (.int s.id) id = .ok (some e, (p.setCourses s.id (s.without id)).touch) := by
      simp [Plan.removeCourse, found, held, pure, Except.pure]
    refine ⟨some e, _, removed, h.removeCourse removed, ?_⟩
    rw [touch_semesters, setCourses_semesters, mem_withCourses]
    exact ⟨s, hs, by simp [courseSet]⟩

/-- Removing courses one after the other leaves the other courses of the semester in order. -/
theorem Valid.removeAll_ok (h : p.Valid) (hs : s ∈ p.semesters) {ids : List Json} (plain : ∀ v ∈ ids, v.IsId) :
    ∃ q, p.removeAll s.id ids = .ok q ∧ q.semester? (.int s.id) = some (s.dropping ids) := by
  induction ids generalizing p s with
  | nil =>
    refine ⟨p, rfl, ?_⟩
    have all : s.dropping [] = s := by simp [Semester.dropping, Json.isIn]
    rw [all, semester?_of_mem h.ids hs (Json.same_refl _)]
  | cons id ids ih =>
    obtain ⟨number, plain⟩ := List.forall_mem_cons.1 plain
    obtain ⟨r, q, removed, valid, hq⟩ := h.removeCourse_ok hs id
    obtain ⟨q', rest, found⟩ := ih valid hq plain
    refine ⟨q', ?_, ?_⟩
    · rw [removeAll, List.foldlM_cons, removed]
      exact rest
    · have both : Semester.dropping { s with courses := s.without id } ids = s.dropping (id :: ids) := by
        simp only [Semester.dropping, Semester.without, Json.equals_eq_same number.isNaN, List.filter_filter, Json.isIn,
          List.any_cons, Bool.not_or, Bool.and_comm]
      rw [← both]
      exact found

end Plan

/-! ## Agreement with the plan -/

theorem Semester.raises_toJson (s : Semester) : Raises Fault.OutOfRange s.toJson :=
  raises_bind (raises_gradePointAverage _) fun _ _ => raises_ok _

namespace Archive

variable {a : Archive} {user : String} {r : Row} {s : Semester}

/-- Courses can be dropped from a row, and what is left reports a semester. The same row is then in the archive if
courses can be dropped from the other rows of the user. -/
def DropsTo (a : Archive) (user : String) (r : Row) (ids : List Json) (s : Semester) : Prop :=
  ∃ r', r.dropCourses ids = (r', .ok (r.courses.length - s.courses.length)) ∧ r'.Reports s ∧
    ((∀ t ∈ a.rows user, t ≠ r → ¬t.Stuck ids) →
      (∃ n, (a.delete user (.arr ids)).2 = .ok n) ∧ r' ∈ (a.delete user (.arr ids)).1.rows user)

theorem dropsTo_of_reports {ids : List Json} (known : user ≠ "") (stored : r ∈ a.rows user) (reports : r.Reports s)
    (courses : ∀ e ∈ s.courses, e.id.isKey = true) (keys : ∀ v ∈ ids, v.isKey = true) {x : Float}
    (average : (s.dropping ids).average = .ok x) : a.DropsTo user r ids (s.dropping ids) := by
  obtain ⟨r', dropped, left⟩ := reports.dropCourses courses ids average
  refine ⟨r', dropped, left, fun free => ?_⟩
  have unstuck : ¬r.Stuck ids := by simp [← Row.dropCourses_error_iff, dropped]
  have all : ∀ t ∈ a.rows user, ¬t.Stuck ids := fun t ht stuck =>
    free t ht (fun same => unstuck (same ▸ stuck)) stuck
  obtain ⟨counted, rows⟩ := delete_ok known keys all
  refine ⟨counted, ?_⟩
  have mem := rows r stored
  rwa [dropped] at mem

/-- Stored totals are those of the courses, and those of the plan. In every run that begins with an empty archive all
rows add up. A semester of a reachable plan has a record unless its average is out of range. The archive takes this
record exactly if the season has a name and the limit of credits is a number, and the row then reports the semester.
Courses whose ids are texts or whole numbers leave the row as they leave the plan: the other courses are left in order,
and the row reports them unless their average is out of range. -/
theorem totals_agree {service : Service} (fresh : service.archive.users = []) (as : List Access)
    {owner : Option String} {p : Plan} (reached : p.Reachable owner) :
    (Access.after service as).archive.AddsUp ∧
      ∀ s ∈ p.semesters, Raises Fault.OutOfRange s.toJson ∧
      ∀ json, s.toJson = .ok json → ∀ (a : Archive) (user : String),
        ((∃ r b, a.save user json = .ok (r, b)) ↔
          user ≠ "" ∧ s.term.season ≠ "" ∧ ∃ n, (s.maxCredits.orElse (.int 18)).toInteger = .ok n) ∧
        ∀ r b, a.save user json = .ok (r, b) → r ∈ b.rows user ∧ r.Reports s ∧
          ((∀ e ∈ s.courses, e.id.isKey = true) → ∀ ids : List Json, (∀ v ∈ ids, v.IsId) →
            ∃ q, p.removeAll s.id ids = .ok q ∧ q.semester? (.int s.id) = some (s.dropping ids) ∧
              Gives (fun _ => b.DropsTo user r ids (s.dropping ids)) Fault.OutOfRange (s.dropping ids).average) := by
  refine ⟨Access.addsUp_after (fun user r hr => ?_) as, fun s hs => ⟨s.raises_toJson, ?_⟩⟩
  · simp [rows, fresh] at hr
  intro json hj a user
  refine ⟨save_semester_iff hj, fun r b saved => ?_⟩
  obtain ⟨known, -⟩ := save_ok_iff.1 ⟨r, b, saved⟩
  have stored := mem_rows_of_save saved
  have reports := Row.reports_of_ofJson hj (save_eq_ok saved).1
  refine ⟨stored, reports, fun courses ids plain => ?_⟩
  have keys : ∀ v ∈ ids, v.isKey = true := fun v hv => (plain v hv).isKey
  obtain ⟨q, removed, found⟩ := reached.valid.removeAll_ok hs plain
  refine ⟨q, removed, found, ?_⟩
  -- the plan removes courses whether there is an average or not, the archive needs one
  cases average : (s.dropping ids).average with
  | ok x => exact .ok (dropsTo_of_reports known stored reports courses keys average)
  | error f => exact .error (raises_gradePointAverage _ f average)

/-- A semester of two courses is stored, and then one of them goes. -/
theorem totals_agree_dropped :
    let e : Entry := { id := .int 1, code := .str "CS 101", title := .str "", credits := 3, status := .completed
                       semester := .int 202400, grade := some (.letter .b) }
    let changes : List Plan.Change := [.addSemester (.str "Fall") (.int 2024) (.int 18), .addCourse e,
      .addCourse { e with id := .str "c2", code := .str "CS 102", credits := 4 }]
    let p := changes.foldl Plan.after ({ owner := some "ada" } : Plan)
    let ids : List Json := [.int 1]
    let empty : Service := { feed := { path := "", file := none } }
    empty.archive.users = [] ∧ ∃ s ∈ p.semesters, s.courses.length = 2 ∧ s.total = 7 ∧
      ∃ json, s.toJson = .ok json ∧
      (Access.after empty [.backend "ada" (.save json), .direct "ada" (.delete (.arr ids))]).archive.AddsUp ∧
        ∃ r b, ({} : Archive).save "ada" json = .ok (r, b) ∧ r ∈ b.rows "ada" ∧ r.Reports s ∧
          (∃ q, p.removeAll s.id ids = .ok q ∧ q.semester? (.int s.id) = some (s.dropping ids)) ∧
            (s.dropping ids).total = 4 ∧ b.DropsTo "ada" r ids (s.dropping ids) := by
  intro e changes p ids empty
  have reached : p.Reachable (some "ada") := Plan.Reachable.empty.changes changes
  obtain ⟨s, hs, two, seven, ⟨json, written⟩, named, limited, courses, four, x, average⟩ :
      ∃ s, p.semester? (.int 202400) = some s ∧ s.courses.length = 2 ∧ s.total = 7 ∧
        (∃ json, s.toJson = .ok json) ∧
        s.term.season ≠ "" ∧ (∃ n, (s.maxCredits.orElse (.int 18)).toInteger = .ok n) ∧
          (∀ e ∈ s.courses, e.id.isKey = true) ∧
          (s.dropping ids).total = 4 ∧ ∃ x, (s.dropping ids).average = .ok x := by decide +kernel
  have mem := (Plan.semester?_some hs).1
  have fresh : empty.archive.users = [] := rfl
  obtain ⟨addsUp, agree⟩ :=
    totals_agree fresh [.backend "ada" (.save json), .direct "ada" (.delete (.arr ids))] reached
  obtain ⟨accepted, kept⟩ := (agree s mem).2 json written {} "ada"
  obtain ⟨r, b, saved⟩ := accepted.2 ⟨by decide, named, limited⟩
  obtain ⟨stored, reports, drops⟩ := kept r b saved
  obtain ⟨q, removed, found, left⟩ := drops courses ids (by decide)
  exact ⟨fresh, s, mem, two, seven, json, written, addsUp, r, b, saved, stored, reports,
    ⟨q, removed, found⟩, four, left.of_ok average⟩

/-- A plan takes a semester from a document whose season has no name, and the archive refuses its record. -/
theorem totals_agree_refused :
    let p := Plan.after { owner := some "ada" } (.load (.arr [.obj [("id", .int 202400), ("season", .str "")]]))
    p.Reachable (some "ada") ∧ ∃ s ∈ p.semesters, ∃ json, s.toJson = .ok json ∧
      ∀ (a : Archive) (user : String), ¬∃ r b, a.save user json = .ok (r, b) := by
  intro p
  obtain ⟨s, hs, unnamed, json, written⟩ :
      ∃ s, p.semester? (.int 202400) = some s ∧ s.term.season = "" ∧ ∃ json, s.toJson = .ok json := by
        decide +kernel
  refine ⟨Plan.Reachable.empty.change _, s, (Plan.semester?_some hs).1, json, written, fun a user saved => ?_⟩
  exact ((save_semester_iff written).1 saved).2.1 unnamed

end Archive
end DegreePlan
