import Mathlib.Data.List.Find
import DegreePlan.Proofs.Plan.Moves

/-!
# The other courses

A change that names one course leaves the others where they are. And they do not notice it: with one more course in the
plan every change that names another course does what it does without it, and is refused where it is refused without it.
So a course that is added, kept for a while and removed leaves no trace.
-/

namespace DegreePlan

/-- The courses that are not of an id. -/
def others (id : Json) (courses : List Entry) : List Entry := courses.filter fun c => !c.id.same id

theorem others_append (id : Json) (cs ds : List Entry) : others id (cs ++ ds) = others id cs ++ others id ds :=
  List.filter_append ..

theorem others_others (id : Json) (cs : List Entry) : others id (others id cs) = others id cs := by
  simp only [others, List.filter_filter, Bool.and_self]

theorem others_eq_self {id : Json} {cs : List Entry} (differ : ∀ c ∈ cs, c.id.same id = false) :
    others id cs = cs :=
  List.filter_eq_self.2 fun c hc => by rw [differ c hc, Bool.not_false]

theorem others_single {id : Json} {c : Entry} (same : c.id.same id = true) : others id [c] = [] := by
  simp [others, same]

/-- Courses that keep their ids are left out after an exchange where they were before. -/
theorem others_exchange {id id' : Json} {r : Entry} (same : r.id.same id = true) (cs : List Entry) :
    others id' (Plan.exchange id r cs) = Plan.exchange id r (others id' cs) := by
  rw [others, Plan.exchange, List.filter_map]
  refine congrArg _ (List.filter_congr fun c _ => ?_)
  rw [Function.comp_apply]
  split
  · next found =>
    have : r.id.canonical = c.id.canonical := Json.same_iff.1 (Json.same_trans same (Json.same_symm found))
    simp only [Json.same, this]
  · rfl

/-- What is looked for among courses of other ids is found among all courses. -/
theorem find?_others {id : Json} {P : Entry → Bool} {cs : List Entry}
    (differ : ∀ c ∈ cs, P c = true → c.id.same id = false) : (others id cs).find? P = cs.find? P := by
  rw [others, List.find?_filter]
  refine List.find?_congr fun c hc => ?_
  rw [Bool.eq_iff_iff]
  simpa using differ c hc

theorem any_others {id : Json} {P : Entry → Bool} {cs : List Entry}
    (differ : ∀ c ∈ cs, P c = true → c.id.same id = false) : (others id cs).any P = cs.any P := by
  rw [← List.isSome_find?, ← List.isSome_find?, find?_others differ]

/-- A value is not of an id that another one of its own id is not of. -/
theorem Json.differ_of_same {a b c : Json} (same : a.same b = true) (differ : b.same c = false) : a.same c = false := by
  rw [← Bool.not_eq_true]
  exact fun same' => Bool.false_ne_true (differ.symm.trans (same_trans (same_symm same) same'))

namespace Semester

/-- The semester without the courses of an id. -/
def rest (s : Semester) (id : Json) : Semester := { s with courses := others id s.courses }

/-- Where a course of the id was found, all courses of the id go. -/
theorem without_eq {s : Semester} {id : Json} (found : s.find? id = some e) : s.without id = others id s.courses := by
  simp only [without, others, Json.equals_eq_same (Plan.isNaN_of_find? found)]

/-- A course of another id is found in the rest as well. -/
theorem find?_rest (s : Semester) {id id' : Json} (differ : id.same id' = false) : (s.rest id').find? id = s.find? id :=
  find?_others fun _ _ found => Json.differ_of_same (Json.same_of_equals found) differ

end Semester

@[simp] theorem map_ok {ε α β : Type} (f : α → β) (a : α) : f <$> (.ok a : Except ε α) = .ok (f a) := rfl

namespace Plan

variable {p q : Plan} {s : Semester} {e : Entry} {id : Json}

/-- The semesters without the courses of an id. -/
def rest (p : Plan) (id : Json) : List Semester := p.semesters.map (·.rest id)

theorem rest_setCourses (p : Plan) (n : Int) (cs : List Entry) (id : Json) :
    (p.setCourses n cs).rest id = withCourses (courseSet n (others id cs)) (p.rest id) := by
  rw [rest, rest, setCourses_semesters, withCourses, withCourses, List.map_map, List.map_map]
  refine List.map_congr_left fun s _ => ?_
  simp only [Function.comp_apply, Semester.rest, courseSet]
  split <;> rfl

theorem rest_eq_self (differ : ∀ c ∈ p.entries, c.id.same id = false) : p.rest id = p.semesters := by
  refine (List.map_congr_left fun s hs => ?_).trans (List.map_id _)
  rw [Semester.rest, others_eq_self fun c hc => differ c (mem_entries.2 ⟨s, hs, hc⟩), id_eq]

/-! ## A change leaves the other courses where they are -/

/-- A semester gets other courses of one id only. -/
theorem rest_setCourses_same (ids : (p.semesters.map (·.id)).Nodup) (hs : s ∈ p.semesters) {cs : List Entry}
    (same : others id cs = others id s.courses) : (p.setCourses s.id cs).rest id = p.rest id := by
  obtain ⟨l, m, hp, set⟩ := setCourses_split ids hs
  rw [rest, rest, set, hp]
  simp only [List.map_append, List.map_cons, Semester.rest, same]

/-- The id of the course that a change names. -/
def Change.names? : Change → Option Json
  | addCourse e => some e.id
  | removeCourse _ id | moveCourse id _ _ | setStatus _ id _ _ | setGrade _ id _ => some id
  | addSemester .. | generate .. | clearPlanned | clear | load _ | importText _ => none

theorem Valid.rest_exchange (h : p.Valid) {semester : Json} {r : Entry} (hs : p.semester? semester = some s)
    (he : s.find? id = some e) (kept : e.id = r.id) :
    (p.setCourses s.id (Plan.exchange id r s.courses)).rest id = p.rest id := by
  have same : r.id.same id = true := kept ▸ (find?_some he).2
  refine rest_setCourses_same h.ids (semester?_some hs).1 ?_
  rw [others_exchange same, Plan.exchange]
  refine (List.map_congr_left fun c hc => ?_).trans (List.map_id _)
  have differ : c.id.same id = false := by simpa [others] using (List.mem_filter.1 hc).2
  rw [differ]
  rfl

/-- A change that names a course keeps all others where they are. -/
theorem Valid.rest_make (h : p.Valid) {c : Change} (named : c.names? = some id) (made : c.make p = .ok q) :
    q.rest id = p.rest id := by
  cases c <;> simp only [Change.names?, reduceCtorEq, Option.some.injEq] at named <;> subst named <;>
    simp only [Change.make, map_eq_ok, Prod.exists] at made
  case addCourse e =>
    obtain ⟨s, hs, -, -, rfl⟩ := addCourse_eq_ok made
    refine rest_setCourses_same h.ids (semester?_some hs).1 ?_
    rw [others_append, others_single (Json.same_refl _), List.append_nil]
  case removeCourse =>
    obtain ⟨r, _, made, rfl⟩ := made
    rcases removeCourse_eq_ok made with ⟨-, rfl⟩ | ⟨s, e, hs, he, -, rfl⟩
    · rfl
    · exact rest_setCourses_same h.ids (semester?_some hs).1 (by rw [Semester.without_eq he, others_others])
  case moveCourse id source target =>
    obtain ⟨r, _, made, rfl⟩ := made
    obtain ⟨s, t, e, hs, ht, he, ⟨-, rfl⟩ | ⟨hst, rfl⟩⟩ := moveCourse_eq_ok made
    · rfl
    have left : (p.setCourses s.id (s.without id)).rest id = p.rest id :=
      rest_setCourses_same h.ids (semester?_some hs).1 (by rw [Semester.without_eq he, others_others])
    have moved : others id [{ e with semester := target }] = [] := others_single (find?_some he).2
    refine .trans (rest_setCourses_same (h.remove hs).ids (Valid.target_kept hs ht hst _) ?_) left
    rw [others_append, moved, List.append_nil]
  case setStatus =>
    obtain ⟨r, _, made, rfl⟩ := made
    obtain ⟨s, e, hs, he, kept, rfl⟩ := setStatus_eq_ok made
    exact h.rest_exchange hs he kept.1
  case setGrade =>
    obtain ⟨r, _, made, rfl⟩ := made
    obtain ⟨s, e, hs, he, kept, rfl⟩ := setGrade_eq_ok made
    exact h.rest_exchange hs he kept.1

/-! ## What is planned -/

theorem not_planned (none : p.withStatus .planned = .ok []) (he : e ∈ p.entries) : e.status ≠ .planned := by
  simp only [withStatus, bind_eq_ok, pure_eq_ok] at none
  obtain ⟨es, listed, none⟩ := none
  simpa using List.filter_eq_nil_iff.1 none e ((courses_perm listed).mem_iff.2 he)

theorem clearPlanned_of_dated (dated : ∀ s ∈ p.semesters, s.Dated) :
    ∃ removed q, p.clearPlanned = .ok (removed, q) ∧ q.semesters = withCourses unplanned p.semesters := by
  obtain ⟨removed, q, made⟩ : ∃ removed q, p.clearPlanned = .ok (removed, q) := by
    simp only [clearPlanned, withStatus, courses, ordered_of_dated dated, ok_bind, pure_bind]
    split <;> exact ⟨_, _, rfl⟩
  refine ⟨removed, q, made, ?_⟩
  obtain ⟨planned, ⟨rfl, rfl⟩ | ⟨-, rfl⟩⟩ := clearPlanned_eq_ok made
  · have none : ∀ s ∈ q.semesters, unplanned s = s.courses := fun s hs =>
      List.filter_eq_self.2 fun c hc => by simpa using not_planned planned (mem_entries.2 ⟨s, hs, hc⟩)
    exact ((List.map_congr_left fun s hs => by rw [none s hs]; rfl).trans (List.map_id q.semesters)).symm
  · rfl

theorem clearPlanned_of_undated (undated : ¬ ∀ s ∈ p.semesters, s.Dated) :
    p.clearPlanned = .error (.value .seasonNotListed) := by
  simp only [clearPlanned, withStatus, courses, ordered_of_undated undated, error_bind]

/-! ## One more course -/

/-- The second plan has the courses of the first one. What else it has is of the id, the code and the semester of
`e`. -/
structure Beside (e : Entry) (p q : Plan) : Prop where
  rest : q.rest e.id = p.semesters
  alike : ∀ s ∈ q.semesters, ∀ c ∈ s.courses, c.id.same e.id = true →
    c.code.same e.code = true ∧ e.semester.same (.int s.id) = true

/-- Both are refused for the same reason, or both are made, and the second plan still has at most `e` beside the
first. -/
inductive Apace (e : Entry) : Except Fault Plan → Except Fault Plan → Prop
  | refused (f : Fault) : Apace e (.error f) (.error f)
  | made {p q : Plan} (h : Beside e p q) : Apace e (.ok p) (.ok q)

namespace Beside

/-- A course that is added stands beside what was there. -/
theorem of_addCourse (h : p.Valid) (accepted : p.addCourse e = .ok q) (number : e.id.isNaN = false) :
    Beside e p q := by
  have kept := h.rest_make (c := .addCourse e) rfl accepted
  obtain ⟨s, hs, -, apart, rfl⟩ := addCourse_eq_ok accepted
  have differ : ∀ c ∈ p.entries, c.id.same e.id = false := fun c hc =>
    Json.equals_eq_same number ▸ apart c hc
  refine ⟨kept.trans (rest_eq_self differ), fun t ht c hc same => ?_⟩
  obtain ⟨u, hu, rfl⟩ := mem_setCourses ht
  have old : c ∉ u.courses :=
    fun hc => Bool.false_ne_true ((differ c (mem_entries.2 ⟨u, hu, hc⟩)).symm.trans same)
  simp only [courseSet, beq_iff_eq] at hc
  split at hc
  · next home =>
    have new : c ∉ s.courses := fun hc =>
      Bool.false_ne_true ((differ c (mem_entries.2 ⟨s, (semester?_some hs).1, hc⟩)).symm.trans same)
    rcases List.mem_append.1 hc with hc | hc
    · exact absurd hc new
    · rw [List.mem_singleton.1 hc]
      exact ⟨Json.same_refl _, home ▸ (semester?_some hs).2⟩
  · exact absurd hc old

variable (h : Beside e p q)
include h

/-! ### Looking up -/

theorem semester? (v : Json) : p.semester? v = (q.semester? v).map (·.rest e.id) := by
  rw [Plan.semester?, ← h.rest, Plan.rest, List.find?_map]
  rfl

theorem lookup (v : Json) : p.lookup v = Option.map (·.rest e.id) <$> q.lookup v := by
  rw [Plan.lookup, Plan.lookup, h.semester?]
  cases v.checkKey <;> rfl

theorem semester (v : Json) : p.semester v = (·.rest e.id) <$> q.semester v := by
  rw [Plan.semester, Plan.semester, h.lookup]
  rcases q.lookup v with f | _ | s <;> rfl

theorem courses : p.semesters.flatMap (·.courses) = others e.id (q.semesters.flatMap (·.courses)) := by
  rw [← h.rest, Plan.rest, List.flatMap_map, others, List.filter_flatMap]
  rfl

theorem find? (differ : id.same e.id = false) : p.find? id = q.find? id := by
  rw [Plan.find?, h.courses]
  exact find?_others fun c _ found => Json.differ_of_same (Json.same_of_equals found) differ

theorem find?_of_code (hs : s ∈ q.semesters) {code : Json} (differ : code.same e.code = false) :
    ∀ c ∈ s.courses, c.code.same code = true → c.id.same e.id = false := by
  intro c hc found
  rw [← Bool.not_eq_true]
  exact fun same => Bool.false_ne_true ((Json.differ_of_same found differ).symm.trans (h.alike s hs c hc same).1)

theorem findCode? {code : Json} (differ : code.same e.code = false) : p.findCode? code = q.findCode? code := by
  rw [Plan.findCode?, h.courses]
  refine find?_others fun c hc => ?_
  obtain ⟨s, hs, hc⟩ := List.mem_flatMap.1 hc
  exact h.find?_of_code hs differ c hc

/-! ### Changing -/

omit h in
theorem touch (h : Beside e p q) : Beside e p.touch q.touch := ⟨h.rest, h.alike⟩

/-- A semester gets courses in both plans, in the second one perhaps with `e` beside them. -/
theorem setCourses (hs : s ∈ q.semesters) {cs : List Entry}
    (old : ∀ c ∈ cs, c.id.same e.id = true → c ∈ s.courses) :
    Beside e (p.setCourses s.id (others e.id cs)) (q.setCourses s.id cs) := by
  refine ⟨?_, fun t ht c hc same => ?_⟩
  · rw [rest_setCourses, h.rest, setCourses_semesters]
  · obtain ⟨u, hu, rfl⟩ := mem_setCourses ht
    simp only [courseSet, beq_iff_eq] at hc
    split at hc
    · next home => exact home ▸ h.alike s hs c (old c hc same) same
    · exact h.alike u hu c hc same

theorem append (hs : s ∈ q.semesters) {x : Entry} (differ : x.id.same e.id = false) :
    Beside e (p.setCourses s.id ((s.rest e.id).courses ++ [x])) (q.setCourses s.id (s.courses ++ [x])) := by
  have added : (s.rest e.id).courses ++ [x] = others e.id (s.courses ++ [x]) := by
    have kept : others e.id [x] = [x] := others_eq_self (by simpa using differ)
    rw [others_append, kept]
    rfl
  rw [added]
  refine h.setCourses hs fun c hc same => (List.mem_append.1 hc).resolve_right fun new => ?_
  rw [List.mem_singleton.1 new] at same
  exact Bool.false_ne_true (differ.symm.trans same)

theorem without (hs : s ∈ q.semesters) (id : Json) :
    Beside e (p.setCourses s.id ((s.rest e.id).without id)) (q.setCourses s.id (s.without id)) := by
  have left : (s.rest e.id).without id = others e.id (s.without id) := by
    simp only [Semester.without, Semester.rest, others, List.filter_filter, Bool.and_comm]
  rw [left]
  exact h.setCourses hs fun c hc _ => List.mem_of_mem_filter hc

theorem exchange (hs : s ∈ q.semesters) {r : Entry} (same : r.id.same id = true) (differ : id.same e.id = false) :
    Beside e (p.setCourses s.id (Plan.exchange id r (s.rest e.id).courses))
      (q.setCourses s.id (Plan.exchange id r s.courses)) := by
  have left : Plan.exchange id r (s.rest e.id).courses = others e.id (Plan.exchange id r s.courses) :=
    (others_exchange same _).symm
  rw [left]
  refine h.setCourses hs fun c hc same' => (mem_exchange hc).resolve_left ?_
  rintro rfl
  exact Bool.false_ne_true ((Json.differ_of_same same differ).symm.trans same')

theorem addCourse {x : Entry} (code : x.code.same e.code = false) (differ : x.id.same e.id = false) :
    Apace e (p.addCourse x) (q.addCourse x) := by
  simp only [Plan.addCourse, h.semester, h.findCode? code, h.lookup, h.find? differ]
  cases found : q.semester x.semester with
  | error f => exact .refused f
  | ok s =>
    have hs := (semester?_some (semester_eq_ok.1 found).2).1
    have listed : ((s.rest e.id).courses.any fun c => c.code.same x.code) = s.courses.any fun c => c.code.same x.code :=
      any_others (h.find?_of_code hs code)
    simp only [map_ok, ok_bind, listed]
    by_cases twice : (s.courses.any fun c => c.code.same x.code) = true
    · rw [if_pos twice, if_pos twice]
      exact .refused _
    rw [if_neg twice, if_neg twice]
    cases q.findCode? x.code with
    | some other =>
      dsimp only
      rcases q.lookup other.semester with f | _ | t <;> exact .refused _
    | none =>
      cases q.find? x.id with
      | some other => exact .refused _
      | none => exact .made (h.append hs differ).touch

theorem removeCourse (differ : id.same e.id = false) (semester : Json) :
    Apace e ((·.2) <$> p.removeCourse semester id) ((·.2) <$> q.removeCourse semester id) := by
  simp only [Plan.removeCourse, h.lookup]
  rcases found : q.lookup semester with f | _ | s
  · exact .refused f
  · exact .made h
  simp only [map_ok, ok_bind, Option.map_some, s.find?_rest differ]
  cases s.find? id with
  | none => exact .made h
  | some c => exact .made (h.without (semester?_some (lookup_eq_ok.1 found).2).1 id).touch

theorem moveCourse (differ : id.same e.id = false) (source target : Json) :
    Apace e ((·.2) <$> p.moveCourse id source target) ((·.2) <$> q.moveCourse id source target) := by
  simp only [Plan.moveCourse, h.semester]
  cases found : q.semester source with
  | error f => exact .refused f
  | ok s =>
    cases found' : q.semester target with
    | error f => exact .refused f
    | ok t =>
      have hs := (semester_eq_ok.1 found).2
      have ht := (semester_eq_ok.1 found').2
      simp only [map_ok, ok_bind, courseIn, s.find?_rest differ]
      cases hc : s.find? id with
      | none => exact .refused _
      | some c =>
        simp only [ok_bind]
        split
        · exact .made h
        · next away =>
          have kept := Valid.target_kept hs ht (Bool.eq_false_of_not_eq_true away) (s.without id)
          have other : ({ c with semester := target } : Entry).id.same e.id = false :=
            Json.differ_of_same (find?_some hc).2 differ
          exact .made ((h.without (semester?_some hs).1 id).append kept other).touch

theorem changeCourse (differ : id.same e.id = false) (semester : Json) {change : Entry → Except Fault Entry}
    (kept : ∀ c r, change c = .ok r → c.id = r.id) :
    Apace e ((·.2) <$> p.changeCourse semester id change) ((·.2) <$> q.changeCourse semester id change) := by
  simp only [Plan.changeCourse, h.semester]
  cases found : q.semester semester with
  | error f => exact .refused f
  | ok s =>
    simp only [map_ok, ok_bind, courseIn, s.find?_rest differ]
    cases hc : s.find? id with
    | none => exact .refused _
    | some c =>
      simp only [ok_bind]
      cases made : change c with
      | error f => exact .refused f
      | ok r =>
        have same : r.id.same id = true := kept c r made ▸ (find?_some hc).2
        simp only [ok_bind, map_equals hc, map_equals ((s.find?_rest differ).trans hc)]
        exact .made (h.exchange (semester?_some (semester_eq_ok.1 found).2).1 same differ).touch

theorem setStatus (differ : id.same e.id = false) (semester status grade : Json) :
    Apace e ((·.2) <$> p.setStatus semester id status grade) ((·.2) <$> q.setStatus semester id status grade) := by
  refine h.changeCourse differ semester fun c r made => ?_
  obtain ⟨status', -, made⟩ := bind_eq_ok.1 made
  split at made
  · cases made; rfl
  · obtain ⟨grade', -, made⟩ := bind_eq_ok.1 made
    cases made; rfl

theorem setGrade (differ : id.same e.id = false) (semester grade : Json) :
    Apace e ((·.2) <$> p.setGrade semester id grade) ((·.2) <$> q.setGrade semester id grade) := by
  refine h.changeCourse differ semester fun c r made => ?_
  obtain ⟨grade', -, made⟩ := bind_eq_ok.1 made
  cases made; rfl

theorem clearPlanned : Apace e ((·.2) <$> p.clearPlanned) ((·.2) <$> q.clearPlanned) := by
  have dated : (∀ s ∈ p.semesters, s.Dated) ↔ ∀ s ∈ q.semesters, s.Dated := by
    rw [← h.rest, Plan.rest, List.forall_mem_map]
    rfl
  by_cases listed : ∀ s ∈ q.semesters, s.Dated
  · obtain ⟨pr, p', hp, rest⟩ := clearPlanned_of_dated (dated.2 listed)
    obtain ⟨qr, q', hq, rest'⟩ := clearPlanned_of_dated listed
    rw [hp, hq]
    refine .made ⟨?_, fun s hs c hc same => ?_⟩
    · rw [rest, ← h.rest, Plan.rest, rest', Plan.rest, withCourses, withCourses, List.map_map, List.map_map]
      refine List.map_congr_left fun s _ => ?_
      simp only [Function.comp_apply, Semester.rest, others, unplanned, List.filter_filter, Bool.and_comm]
    · rw [rest', mem_withCourses] at hs
      obtain ⟨t, ht, rfl⟩ := hs
      exact h.alike t ht c (List.mem_of_mem_filter hc) same
  · rw [clearPlanned_of_undated (mt dated.1 listed), clearPlanned_of_undated listed]
    exact .refused _

end Beside

/-! ## One course more or less -/

/-- The change leaves a course alone: it adds a course of another code and another id, or it names another id, or it
drops what is planned. -/
def Change.Spares (e : Entry) : Change → Prop
  | addCourse x => x.code.same e.code = false ∧ x.id.same e.id = false
  | removeCourse _ id | moveCourse id _ _ | setStatus _ id _ _ | setGrade _ id _ => id.same e.id = false
  | clearPlanned => True
  | addSemester .. | generate .. | clear | load _ | importText _ => False

instance (e : Entry) : DecidablePred (Change.Spares e)
  | .addCourse x => inferInstanceAs (Decidable (x.code.same e.code = false ∧ x.id.same e.id = false))
  | .removeCourse _ id | .moveCourse id _ _ | .setStatus _ id _ _ | .setGrade _ id _ =>
    inferInstanceAs (Decidable (id.same e.id = false))
  | .clearPlanned => isTrue trivial
  | .addSemester .. | .generate .. | .clear | .load _ | .importText _ => isFalse not_false

/-- Why a change is refused, if it is. -/
def Change.refusal? (p : Plan) (c : Change) : Option Fault :=
  match c.make p with
  | .ok _ => none
  | .error f => some f

/-- Why changes that are made one after the other are refused, for each of them. -/
def refusals : Plan → List Change → List (Option Fault)
  | _, [] => []
  | p, c :: cs => c.refusal? p :: refusals (p.after c) cs

namespace Beside

theorem make (h : Beside e p q) {c : Change} (spares : c.Spares e) : Apace e (c.make p) (c.make q) := by
  cases c <;> simp only [Change.Spares] at spares <;> simp only [Change.make]
  case addCourse => exact h.addCourse spares.1 spares.2
  case removeCourse => exact h.removeCourse spares _
  case moveCourse => exact h.moveCourse spares _ _
  case setStatus => exact h.setStatus spares _ _ _
  case setGrade => exact h.setGrade spares _ _
  case clearPlanned => exact h.clearPlanned

/-- Changes that leave the course alone end alike in both plans, and they leave at most the course beside the rest. -/
theorem run (h : Beside e p q) {cs : List Change} (spares : ∀ c ∈ cs, c.Spares e) :
    q.refusals cs = p.refusals cs ∧ Beside e (cs.foldl after p) (cs.foldl after q) := by
  induction cs generalizing p q with
  | nil => exact ⟨rfl, h⟩
  | cons c cs ih =>
    obtain ⟨now, later⟩ := List.forall_mem_cons.1 spares
    have step := h.make now
    simp only [List.foldl_cons, refusals, after, Change.refusal?]
    generalize c.make p = x, c.make q = y at step
    cases step with
    | refused f =>
      obtain ⟨same, beside⟩ := ih h later
      exact ⟨congrArg _ same, beside⟩
    | made h =>
      obtain ⟨same, beside⟩ := ih h later
      exact ⟨congrArg _ same, beside⟩

/-- What stands beside the rest is in the semester that the course names. -/
theorem elsewhere (h : Beside e p q) (ids : (q.semesters.map (·.id)).Nodup) (hs : s ∈ q.semesters)
    (other : q.semester? e.semester ≠ some s) : ∀ c ∈ s.courses, c.id.same e.id = false := by
  intro c hc
  rw [← Bool.not_eq_true]
  exact fun same => other (semester?_of_mem ids hs (h.alike s hs c hc same).2)

/-- When the course is removed, just the rest is left. -/
theorem removed (h : Beside e p q) (ids : (q.semesters.map (·.id)).Nodup) (key : e.semester.isKey = true)
    (number : e.id.isNaN = false) :
    ∃ r q', q.removeCourse e.semester e.id = .ok (r, q') ∧ q'.semesters = p.semesters := by
  have looked : q.lookup e.semester = .ok (q.semester? e.semester) := lookup_eq_ok.2 ⟨key, rfl⟩
  by_cases gone : ∀ s, q.semester? e.semester = some s → s.find? e.id = none
  · refine ⟨none, q, ?_, ?_⟩
    · rw [Plan.removeCourse, looked, ok_bind]
      cases found : q.semester? e.semester with
      | none => rfl
      | some s => simp only [gone s found]; rfl
    · rw [← h.rest, rest_eq_self fun c hc => ?_]
      obtain ⟨s, hs, hc⟩ := mem_entries.1 hc
      by_cases home : q.semester? e.semester = some s
      · exact find?_eq_none (gone s home) number c hc
      · exact h.elsewhere ids hs home c hc
  · push Not at gone
    obtain ⟨s, found, there⟩ := gone
    obtain ⟨c, hc⟩ := Option.ne_none_iff_exists'.1 there
    refine ⟨some c, (q.setCourses s.id (s.without e.id)).touch, ?_, ?_⟩
    · simp only [Plan.removeCourse, looked, ok_bind, found, hc]
      rfl
    have hs := (semester?_some found).1
    have same : (q.setCourses s.id (s.without e.id)).rest e.id = q.rest e.id :=
      rest_setCourses_same ids hs (by rw [Semester.without_eq hc, others_others])
    rw [← h.rest, ← same, rest_eq_self fun c hc => ?_, touch_semesters]
    obtain ⟨t, ht, hc⟩ := mem_entries.1 hc
    obtain ⟨u, hu, rfl⟩ := mem_setCourses ht
    simp only [courseSet, beq_iff_eq] at hc
    split at hc
    · simpa [Json.equals_eq_same number] using (List.mem_filter.1 hc).2
    · next away =>
      refine h.elsewhere ids hu (fun home => away ?_) c hc
      rw [Option.some.inj (found.symm.trans home)]

end Beside

/-- A course is added, then come changes that leave it alone, and at last it is removed. Every one of the changes
ends as it ends without the course, and the semesters are then as they are without it, and so are the credits and
the average. The id must compare equal to itself, as all ids do but the one that is not a number. -/
theorem add_remove_traceless (h : p.Valid) (accepted : p.addCourse e = .ok q) (findable : e.id.equals e.id = true)
    {cs : List Change} (spares : ∀ c ∈ cs, c.Spares e) :
    q.refusals cs = p.refusals cs ∧
    ∃ r q', (cs.foldl after q).removeCourse e.semester e.id = .ok (r, q') ∧
      q'.semesters = (cs.foldl after p).semesters ∧ q'.total = (cs.foldl after p).total ∧
      q'.average = (cs.foldl after p).average := by
  have number : e.id.isNaN = false := Json.equals_self.1 findable
  obtain ⟨alike, beside⟩ := (Beside.of_addCourse h accepted number).run spares
  obtain ⟨s, hs, -⟩ := addCourse_eq_ok accepted
  have key : e.semester.isKey = true := Json.isKey_of_same (semester?_some hs).2 rfl
  obtain ⟨r, q', made, same⟩ := beside.removed ((h.addCourse accepted).changes cs).ids key number
  refine ⟨alike, r, q', made, same, by rw [total, total, same], ?_⟩
  rw [average, average, courses, courses, ordered, ordered, same]

/-- A planned course comes into the fall. Another one is added behind it, the course that was there moves to the
spring and is sought in the fall in vain, and then all that is planned is dropped. There is nothing left to remove. -/
theorem add_remove_traceless_dropped :
    let course (id : Int) (code : String) (status : Status) : Entry :=
      { id := .int id, code := .str code, title := .str "", credits := 3, status, semester := .int 202400,
        grade := none }
    let p : Plan := { owner := some "user-a", semesters := [
      { Semester.ofTerm ⟨.fall, 2024⟩ with
          courses := [course 1 "CS 1301" .completed] }, .ofTerm ⟨.spring, 2025⟩] }
    let e := course 2 "CS 1331" .planned
    let cs : List Change :=
      [.addCourse (course 3 "CS 1332" .inProgress), .moveCourse (.int 1) (.int 202400) (.int 202501),
      .setGrade (.int 202400) (.int 1) (.str "A"), .clearPlanned]
    ∃ q, p.addCourse e = .ok q ∧ (p.refusals (cs.take 3)).map Option.isSome = [false, false, true] ∧
      q.refusals cs = p.refusals cs ∧ ∃ r q', (cs.foldl after q).removeCourse e.semester e.id = .ok (r, q') ∧
        q'.semesters = (cs.foldl after p).semesters := by
  intro course p e cs
  have valid : p.Valid := ⟨by decide +kernel, by decide +kernel, by decide +kernel, by decide +kernel⟩
  obtain ⟨q, accepted⟩ := ok_of_isSome (x := p.addCourse e) (by decide +kernel)
  have spares : ∀ c ∈ cs, c.Spares e := by decide +kernel
  obtain ⟨alike, r, q', removed, same, -⟩ := add_remove_traceless valid accepted (by decide +kernel) spares
  exact ⟨q, accepted, by decide +kernel, alike, r, q', removed, same⟩

/-- A course whose id is not a number can be added, but it is not found again. -/
example :
    let p : Plan := { owner := none, semesters := [.ofTerm ⟨.fall, 2024⟩] }
    let e : Entry := { id := .real (0.0 / 0.0), code := .str "CS 1301", title := .str "", credits := 3,
                       status := .planned, semester := .int 202400, grade := none }
    ((p.addCourse e >>= (·.removeCourse e.semester e.id)).map fun r => (r.1.isSome, r.2.entries.length)).toOption =
      some (false, 1) := by
  decide +kernel

end Plan
end DegreePlan
