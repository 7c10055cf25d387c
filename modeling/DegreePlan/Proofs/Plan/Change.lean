import DegreePlan.Proofs.Json.Equality
import DegreePlan.Proofs.Plan.Order

/-!
# Changes of a plan

What each change does when it is made. Every change but a load either appends a semester or gives
some semesters other courses, so it never drops a semester and never renames one.
-/

namespace DegreePlan.Plan

/-- The courses of all semesters. -/
def entries (p : Plan) : List Entry := p.semesters.flatMap (·.courses)

/-- The semesters with other courses. -/
def withCourses (f : Semester → List Entry) (l : List Semester) : List Semester :=
  l.map fun s => { s with courses := f s }

theorem withCourses_ids (f : Semester → List Entry) (l : List Semester) :
    (withCourses f l).map (·.id) = l.map (·.id) := by simp [withCourses]

theorem mem_withCourses {f : Semester → List Entry} {l : List Semester} {s : Semester} :
    s ∈ withCourses f l ↔ ∃ t ∈ l, { t with courses := f t } = s := List.mem_map

theorem sorted_withCourses (f : Semester → List Entry) (l : List Semester) :
    sorted (withCourses f l) = withCourses f (sorted l) := sorted_map fun _ _ => rfl

/-- What `setCourses` gives to each semester. -/
def courseSet (id : Int) (courses : List Entry) (s : Semester) : List Entry :=
  if s.id == id then courses else s.courses

theorem setCourses_semesters (p : Plan) (id : Int) (courses : List Entry) :
    (p.setCourses id courses).semesters = withCourses (courseSet id courses) p.semesters := by
  refine List.map_congr_left fun s _ => ?_
  unfold courseSet
  split <;> rfl

theorem mem_setCourses {p : Plan} {id : Int} {courses : List Entry} {s : Semester}
    (h : s ∈ (p.setCourses id courses).semesters) :
    ∃ t ∈ p.semesters, s = { t with courses := courseSet id courses t } := by
  rw [setCourses_semesters, mem_withCourses] at h
  obtain ⟨t, ht, rfl⟩ := h
  exact ⟨t, ht, rfl⟩

@[simp] theorem setCourses_owner (p : Plan) (id : Int) (cs : List Entry) : (p.setCourses id cs).owner = p.owner := rfl

@[simp] theorem setCourses_version (p : Plan) (id : Int) (cs : List Entry) :
    (p.setCourses id cs).version = p.version := rfl

@[simp] theorem touch_semesters (p : Plan) : p.touch.semesters = p.semesters := rfl

@[simp] theorem touch_owner (p : Plan) : p.touch.owner = p.owner := rfl

@[simp] theorem touch_version (p : Plan) : p.touch.version = p.version + 1 := rfl

@[simp] theorem touch_entries (p : Plan) : p.touch.entries = p.entries := rfl

/-- The semester with the id gets other courses, the rest of the plan stays as it is. -/
theorem setCourses_middle {p : Plan} {s : Semester} {l m : List Semester} (hp : p.semesters = l ++ s :: m)
    (h : (p.semesters.map (·.id)).Nodup) (cs : List Entry) :
    (p.setCourses s.id cs).semesters = l ++ { s with courses := cs } :: m := by
  have other : ∀ t ∈ l ++ m, t.id ≠ s.id := by
    intro t ht he
    rw [hp, List.map_append, List.map_cons, List.nodup_middle, List.nodup_cons, ← List.map_append] at h
    exact h.1 (he ▸ List.mem_map_of_mem ht)
  have keep : ∀ {k}, (∀ t ∈ k, t ∈ l ++ m) → withCourses (courseSet s.id cs) k = k := by
    intro k hk
    refine (List.map_congr_left fun t ht => ?_).trans (List.map_id k)
    simp [courseSet, other t (hk t ht)]
  rw [setCourses_semesters, hp]
  simp only [withCourses, List.map_append, List.map_cons]
  rw [← withCourses, ← withCourses, keep (by simp +contextual), keep (by simp +contextual)]
  simp [courseSet]

/-- One semester gets other courses, the rest of the plan stays as it is. -/
theorem setCourses_split {p : Plan} {s : Semester} (h : (p.semesters.map (·.id)).Nodup) (hs : s ∈ p.semesters) :
    ∃ l m, p.semesters = l ++ s :: m ∧
      ∀ cs, (p.setCourses s.id cs).semesters = l ++ { s with courses := cs } :: m := by
  obtain ⟨l, m, hp⟩ := List.append_of_mem hs
  exact ⟨l, m, hp, setCourses_middle hp h⟩

theorem entries_setCourses {p : Plan} {s : Semester} (h : (p.semesters.map (·.id)).Nodup) (hs : s ∈ p.semesters) :
    ∃ rest, p.entries.Perm (s.courses ++ rest) ∧ ∀ cs, (p.setCourses s.id cs).entries.Perm (cs ++ rest) := by
  obtain ⟨l, m, hp, hc⟩ := setCourses_split h hs
  have middle : ∀ cs, (l.flatMap (·.courses) ++ (cs ++ m.flatMap (·.courses))).Perm
      (cs ++ (l.flatMap (·.courses) ++ m.flatMap (·.courses))) := fun cs => List.perm_append_comm_assoc _ _ _
  refine ⟨l.flatMap (·.courses) ++ m.flatMap (·.courses), ?_, fun cs => ?_⟩
  · simpa [entries, hp] using middle s.courses
  · simpa [entries, hc cs] using middle cs

/-! ## Looking up -/

theorem semester?_some {p : Plan} {id : Json} {s : Semester} (h : p.semester? id = some s) :
    s ∈ p.semesters ∧ id.same (.int s.id) = true :=
  ⟨List.mem_of_find?_eq_some h, List.find?_some (p := fun s : Semester => id.same (.int s.id)) h⟩

theorem semester?_none {p : Plan} {n : Int} (h : p.semester? (.int n) = none) : ∀ s ∈ p.semesters, s.id ≠ n := by
  intro s hs he
  have := List.find?_eq_none.1 h s hs
  simp [he] at this

theorem semester?_of_mem {p : Plan} {s : Semester} {id : Json} (h : (p.semesters.map (·.id)).Nodup)
    (hs : s ∈ p.semesters) (hi : id.same (.int s.id) = true) : p.semester? id = some s := by
  obtain ⟨t, ht⟩ : ∃ t, p.semester? id = some t := by
    rw [← Option.isSome_iff_exists, semester?, List.find?_isSome]
    exact ⟨s, hs, hi⟩
  have ⟨hm, hid⟩ := semester?_some ht
  have : t.id = s.id := Json.same_int_int.1 (Json.same_trans (Json.same_symm hid) hi)
  rw [ht, List.inj_on_of_nodup_map h hm hs this]

theorem lookup_eq_ok {p : Plan} {id : Json} {r : Option Semester} :
    p.lookup id = .ok r ↔ id.isKey = true ∧ p.semester? id = r := by
  simp [lookup, Json.checkKey_eq_ok]

theorem semester_eq_ok {p : Plan} {id : Json} {s : Semester} :
    p.semester id = .ok s ↔ id.isKey = true ∧ p.semester? id = some s := by
  simp only [semester, bind_eq_ok, lookup_eq_ok]
  constructor
  · rintro ⟨r, ⟨hk, rfl⟩, h⟩
    split at h
    · next hs => rw [pure_eq_ok] at h; exact ⟨hk, h ▸ hs⟩
    · simp at h
  · rintro ⟨hk, hs⟩
    exact ⟨some s, ⟨hk, hs⟩, rfl⟩

theorem find?_some {s : Semester} {id : Json} {e : Entry} (h : s.find? id = some e) :
    e ∈ s.courses ∧ e.id.same id = true :=
  ⟨List.mem_of_find?_eq_some h, Json.same_of_equals (by simpa using List.find?_some h)⟩

/-- What is not a number is not found. -/
theorem isNaN_of_find? {s : Semester} {id : Json} {e : Entry} (h : s.find? id = some e) : id.isNaN = false :=
  Json.isNaN_of_equals (by simpa using List.find?_some h)

theorem find?_eq_none {s : Semester} {id : Json} (h : s.find? id = none) (number : id.isNaN = false) :
    ∀ e ∈ s.courses, e.id.same id = false := fun e he => by
  simpa [Json.equals_eq_same number] using List.find?_eq_none.1 h e he

theorem courseIn_eq_ok {s : Semester} {id : Json} {e : Entry} : courseIn s id = .ok e ↔ s.find? id = some e := by
  unfold courseIn
  split <;> simp_all

theorem mem_entries {p : Plan} {e : Entry} : e ∈ p.entries ↔ ∃ s ∈ p.semesters, e ∈ s.courses :=
  List.mem_flatMap

theorem mem_entries_setCourses {p : Plan} {id : Int} {cs : List Entry} {e : Entry}
    (h : e ∈ (p.setCourses id cs).entries) : e ∈ cs ∨ e ∈ p.entries := by
  obtain ⟨s, hs, he⟩ := mem_entries.1 h
  obtain ⟨t, ht, rfl⟩ := mem_setCourses hs
  simp only [courseSet] at he
  split at he
  · exact .inl he
  · exact .inr (mem_entries.2 ⟨t, ht, he⟩)

theorem courses_perm {p : Plan} {es : List Entry} (h : p.courses = .ok es) : es.Perm p.entries := by
  simp only [courses, bind_eq_ok, pure_eq_ok] at h
  obtain ⟨l, hl, rfl⟩ := h
  exact (ordered_perm hl).flatMap_right _

theorem findCode?_none {p : Plan} {code : Json} (h : p.findCode? code = none) :
    ∀ e ∈ p.entries, e.code.same code = false := fun e he => by
  simpa using List.find?_eq_none.1 h e he

theorem find?_none {p : Plan} {id : Json} (h : p.find? id = none) : ∀ e ∈ p.entries, e.id.equals id = false :=
  fun e he => by simpa using List.find?_eq_none.1 h e he

/-! ## Each change -/

/-- A course is added at the end of its semester, and neither its code nor its id was in the plan. -/
theorem addCourse_eq_ok {p q : Plan} {e : Entry} (h : p.addCourse e = .ok q) :
    ∃ s, p.semester? e.semester = some s ∧ (∀ c ∈ p.entries, c.code.same e.code = false) ∧
      (∀ c ∈ p.entries, c.id.equals e.id = false) ∧ q = (p.setCourses s.id (s.courses ++ [e])).touch := by
  simp only [addCourse, bind_eq_ok, semester_eq_ok] at h
  obtain ⟨s, ⟨-, hs⟩, h⟩ := h
  split at h
  · simp [bind_eq_ok] at h
  cases hc : p.findCode? e.code with
  | some other =>
    simp only [hc, bind_eq_ok] at h
    obtain ⟨r, -, h⟩ := h
    split at h <;> simp [bind_eq_ok] at h
  | none =>
    simp only [hc] at h
    split at h
    · simp at h
    next hi =>
    simp only [Bool.not_eq_true, Option.isSome_eq_false_iff, Option.isNone_iff_eq_none] at hi
    exact ⟨s, hs, findCode?_none hc, find?_none hi, (pure_eq_ok.1 h).symm⟩

/-- A removal finds nothing, or one course goes from its semester. -/
theorem removeCourse_eq_ok {p q : Plan} {semester id : Json} {r : Option Entry}
    (h : p.removeCourse semester id = .ok (r, q)) :
    (r = none ∧ q = p) ∨ ∃ s e, p.semester? semester = some s ∧ s.find? id = some e ∧ r = some e ∧
      q = (p.setCourses s.id (s.without id)).touch := by
  simp only [removeCourse, bind_eq_ok, lookup_eq_ok] at h
  obtain ⟨found, ⟨-, hs⟩, h⟩ := h
  split at h
  · cases h; exact .inl ⟨rfl, rfl⟩
  · split at h
    · cases h; exact .inl ⟨rfl, rfl⟩
    · next s _ e he => cases h; exact .inr ⟨s, e, hs, he, rfl, rfl⟩

/-- A move within one semester changes nothing; any other takes the course out of the one semester
and puts it at the end of the other. -/
theorem moveCourse_eq_ok {p q : Plan} {id source target : Json} {r : Entry}
    (h : p.moveCourse id source target = .ok (r, q)) :
    ∃ s t e, p.semester? source = some s ∧ p.semester? target = some t ∧ s.find? id = some e ∧
      ((source.same target = true ∧ q = p) ∨ (source.same target = false ∧
        q = ((p.setCourses s.id (s.without id)).setCourses t.id
          (t.courses ++ [{ e with semester := target }])).touch)) := by
  simp only [moveCourse, bind_eq_ok, semester_eq_ok, courseIn_eq_ok] at h
  obtain ⟨s, ⟨-, hs⟩, t, ⟨-, ht⟩, e, he, h⟩ := h
  refine ⟨s, t, e, hs, ht, he, ?_⟩
  split at h
  · next hst => cases h; exact .inl ⟨hst, rfl⟩
  · next hst => cases h; exact .inr ⟨by simpa using hst, rfl⟩

/-- A course and its replacement differ in status and grade at most. -/
def SameCourse (a b : Entry) : Prop :=
  a.id = b.id ∧ a.code = b.code ∧ a.title = b.title ∧ a.credits = b.credits ∧ a.semester = b.semester

/-- A course takes the place of the ones of its id. -/
def exchange (id : Json) (e : Entry) (courses : List Entry) : List Entry :=
  courses.map fun c => if c.id.same id then e else c

theorem mem_exchange {id : Json} {e c : Entry} {courses : List Entry} (h : c ∈ exchange id e courses) :
    c = e ∨ c ∈ courses := by
  obtain ⟨d, hd, rfl⟩ := List.mem_map.1 h
  split
  · exact .inl rfl
  · exact .inr hd

/-- Where a course of the id was found, those that compare equal are all those of the id. -/
theorem map_equals {s : Semester} {id : Json} {e : Entry} (found : s.find? id = some e) (r : Entry) :
    (s.courses.map fun c => if c.id.equals id then r else c) = exchange id r s.courses := by
  simp only [exchange, Json.equals_eq_same (isNaN_of_find? found)]

theorem changeCourse_eq_ok {p q : Plan} {semester id : Json} {change : Entry → Except Fault Entry} {r : Entry}
    (h : p.changeCourse semester id change = .ok (r, q)) :
    ∃ s e, p.semester? semester = some s ∧ s.find? id = some e ∧ change e = .ok r ∧
      q = (p.setCourses s.id (exchange id r s.courses)).touch := by
  simp only [changeCourse, bind_eq_ok, semester_eq_ok, courseIn_eq_ok] at h
  obtain ⟨s, ⟨-, hs⟩, e, he, e', hr, h⟩ := h
  cases h
  exact ⟨s, e, hs, he, hr, by rw [map_equals he]⟩

theorem setStatus_eq_ok {p q : Plan} {semester id status grade : Json} {r : Entry}
    (h : p.setStatus semester id status grade = .ok (r, q)) :
    ∃ s e, p.semester? semester = some s ∧ s.find? id = some e ∧ SameCourse e r ∧
      q = (p.setCourses s.id (exchange id r s.courses)).touch := by
  obtain ⟨s, e, hs, he, hr, hq⟩ := changeCourse_eq_ok h
  refine ⟨s, e, hs, he, ?_, hq⟩
  simp only [bind_eq_ok] at hr
  obtain ⟨x, -, hr⟩ := hr
  split at hr
  · cases hr; exact ⟨rfl, rfl, rfl, rfl, rfl⟩
  · simp only [bind_eq_ok, pure_eq_ok] at hr
    obtain ⟨g, -, rfl⟩ := hr
    exact ⟨rfl, rfl, rfl, rfl, rfl⟩

theorem setGrade_eq_ok {p q : Plan} {semester id grade : Json} {r : Entry}
    (h : p.setGrade semester id grade = .ok (r, q)) :
    ∃ s e, p.semester? semester = some s ∧ s.find? id = some e ∧ SameCourse e r ∧
      q = (p.setCourses s.id (exchange id r s.courses)).touch := by
  obtain ⟨s, e, hs, he, hr, hq⟩ := changeCourse_eq_ok h
  refine ⟨s, e, hs, he, ?_, hq⟩
  simp only [bind_eq_ok, pure_eq_ok] at hr
  obtain ⟨g, -, rfl⟩ := hr
  exact ⟨rfl, rfl, rfl, rfl, rfl⟩

/-- The courses that are not planned. -/
def unplanned (s : Semester) : List Entry := s.courses.filter (·.status != .planned)

theorem clearPlanned_eq_ok {p q : Plan} {removed : List Entry} (h : p.clearPlanned = .ok (removed, q)) :
    p.withStatus .planned = .ok removed ∧
      ((removed = [] ∧ q = p) ∨
        (removed ≠ [] ∧ q = { p with semesters := withCourses unplanned p.semesters }.touch)) := by
  simp only [clearPlanned, bind_eq_ok] at h
  obtain ⟨rs, hrs, h⟩ := h
  split at h
  · next he => cases h; exact ⟨List.isEmpty_iff.1 he ▸ hrs, .inl ⟨rfl, rfl⟩⟩
  · next he => cases h; exact ⟨hrs, .inr ⟨by simpa using he, rfl⟩⟩

theorem addSemester_eq_ok {p q : Plan} {season year maxCredits : Json} {s : Semester}
    (h : p.addSemester season year maxCredits = .ok (s, q)) :
    (p.semester? (.int s.id) = some s ∧ q = p) ∨
      ((∀ t ∈ p.semesters, t.id ≠ s.id) ∧ s.courses = [] ∧ (∃ t : Term, t.id = s.id) ∧
        q = { p with semesters := p.semesters ++ [s] }.touch) := by
  simp only [addSemester, bind_eq_ok] at h
  obtain ⟨id, hid, h⟩ := h
  split at h
  · next t ht =>
    cases h
    have := Json.same_int_int.1 (semester?_some ht).2
    exact .inl ⟨this ▸ ht, rfl⟩
  · next hn =>
    simp only [bind_eq_ok, pure_eq_ok] at h
    obtain ⟨y, -, h⟩ := h
    cases h
    exact .inr ⟨semester?_none hn, rfl, Term.idOf_eq_ok hid, rfl⟩

/-- Only an empty plan is filled, and with the empty semesters of terms that run forward in time. -/
theorem generate_eq_ok {p q : Plan} {start graduation current : Json} {r : List Semester}
    (h : p.generate start graduation current = .ok (r, q)) :
    q.ordered = .ok r ∧ ((p.semesters ≠ [] ∧ q = p) ∨
      (p.semesters = [] ∧ ∃ ts : List Term, ts ≠ [] ∧ (ts.Pairwise fun s u => s.before u = true) ∧
        ∃ active : Term → Bool,
          q = { p with semesters := ts.map fun t => { Semester.ofTerm t with isActive := active t } }.touch)) := by
  simp only [generate] at h
  split at h
  · next he =>
    simp only [bind_eq_ok, pure_eq_ok] at h
    obtain ⟨l, hl, h⟩ := h
    cases h
    exact ⟨hl, .inl ⟨by simpa using he, rfl⟩⟩
  · next he =>
    simp only [bind_eq_ok, pure_eq_ok] at h
    obtain ⟨ts, hts, l, hl, h⟩ := h
    cases h
    obtain ⟨hne, hp⟩ := Term.range_ok hts
    exact ⟨hl, .inr ⟨by simpa using he, ts, hne, hp, _, rfl⟩⟩

end DegreePlan.Plan
