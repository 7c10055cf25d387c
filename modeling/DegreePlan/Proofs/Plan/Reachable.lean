import DegreePlan.Proofs.Plan.Load

/-!
# Reachable plans

A plan is reached from the empty plan by changes, any of which may be refused, and by going back to
snapshots of plans of the same owner. Every reachable plan is valid, so a course counts once.
-/

namespace DegreePlan.Plan

/-- A change of a plan, with values of any kind. -/
inductive Change where
  | addSemester (season year maxCredits : Json)
  | generate (start graduation current : Json)
  | addCourse (entry : Entry)
  | removeCourse (semester id : Json)
  | moveCourse (id source target : Json)
  | setStatus (semester id status grade : Json)
  | setGrade (semester id grade : Json)
  | clearPlanned
  | clear
  | load (document : Json)
  | importText (data : Json)

/-- Makes a change. -/
def Change.make (p : Plan) : Change → Except Fault Plan
  | addSemester season year maxCredits => (·.2) <$> p.addSemester season year maxCredits
  | generate start graduation current => (·.2) <$> p.generate start graduation current
  | addCourse entry => p.addCourse entry
  | removeCourse semester id => (·.2) <$> p.removeCourse semester id
  | moveCourse id source target => (·.2) <$> p.moveCourse id source target
  | setStatus semester id status grade => (·.2) <$> p.setStatus semester id status grade
  | setGrade semester id grade => (·.2) <$> p.setGrade semester id grade
  | clearPlanned => (·.2) <$> p.clearPlanned
  | clear => .ok p.clear
  | load document => p.load document
  | importText data => (·.2.2) <$> p.importText data

/-- The plan after a change, which a refused change leaves as it was. -/
def after (p : Plan) (c : Change) : Plan :=
  match c.make p with
  | .ok q => q
  | .error _ => p

/-- The plans that an owner can get to. -/
inductive Reachable (owner : Option String) : Plan → Prop where
  | empty : Reachable owner { owner }
  | change {p : Plan} (h : Reachable owner p) (c : Change) : Reachable owner (p.after c)
  | restore {p q r : Plan} {s : Snapshot} (h : Reachable owner p) (earlier : Reachable owner q)
      (taken : q.snapshot = .ok s) (back : p.restore s = .ok r) : Reachable owner r

theorem Reachable.changes {owner : Option String} {p : Plan} (h : Reachable owner p) (cs : List Change) :
    Reachable owner (cs.foldl after p) := by
  induction cs generalizing p with
  | nil => exact h
  | cons c cs ih => exact ih (h.change c)

namespace Valid

variable {p q : Plan}

theorem make (h : p.Valid) {c : Change} (hq : c.make p = .ok q) : q.Valid := by
  cases c <;> simp only [Change.make, map_eq_ok, Prod.exists] at hq
  case addSemester => obtain ⟨r, _, hq, rfl⟩ := hq; exact h.addSemester hq
  case generate => obtain ⟨r, _, hq, rfl⟩ := hq; exact h.generate hq
  case addCourse => exact h.addCourse hq
  case removeCourse => obtain ⟨r, _, hq, rfl⟩ := hq; exact h.removeCourse hq
  case moveCourse => obtain ⟨r, _, hq, rfl⟩ := hq; exact h.moveCourse hq
  case setStatus => obtain ⟨r, _, hq, rfl⟩ := hq; exact h.setStatus hq
  case setGrade => obtain ⟨r, _, hq, rfl⟩ := hq; exact h.setGrade hq
  case clearPlanned => obtain ⟨r, _, hq, rfl⟩ := hq; exact h.clearPlanned hq
  case clear => cases hq; exact (valid_empty p.owner).touch.of_perm (.refl _)
  case load => exact (load_eq_ok hq).1
  case importText =>
    obtain ⟨a, b, _, hq, rfl⟩ := hq
    rcases importText_eq_ok hq with rfl | ⟨d, hd⟩
    · exact h
    · exact (load_eq_ok hd).1

theorem after (h : p.Valid) (c : Change) : (p.after c).Valid := by
  unfold Plan.after
  split
  · next hq => exact h.make hq
  · exact h

theorem restore {r : Plan} {s : Snapshot} (h : q.Valid) (hs : q.snapshot = .ok s) (hr : p.restore s = .ok r) :
    r.Valid := by
  obtain ⟨xs, hx, rfl⟩ := snapshot_eq_ok.1 hs
  obtain ⟨-, rfl⟩ := restore_eq_ok.1 hr
  exact Valid.touch (h.of_perm (ordered_perm hx))

end Valid

/-! ## What counts -/

theorem recordGrade_new {code : Json} {grade : Option Grade} {l : List (Json × Option Grade)}
    (h : ∀ g ∈ l, g.1.canonical ≠ code.canonical) : recordGrade code grade l = l ++ [(code, grade)] := by
  induction l with
  | nil => rfl
  | cons g l ih =>
    obtain ⟨hg, hl⟩ := List.forall_mem_cons.1 h
    have : g.1.same code = false := by rw [← Bool.not_eq_true, Json.same_iff]; exact hg
    simp [recordGrade, this, ih hl]

theorem foldl_recordGrade {es : List Entry} {l : List (Json × Option Grade)}
    (h : (l.map (·.1.canonical) ++ es.map (·.code.canonical)).Nodup) :
    es.foldl (fun l e => recordGrade e.code e.grade l) l = l ++ es.map fun e => (e.code, e.grade) := by
  induction es generalizing l with
  | nil => simp
  | cons e es ih =>
    have hn : ∀ g ∈ l, g.1.canonical ≠ e.code.canonical := fun g hg he =>
      (List.nodup_append.1 h).2.2 _ (List.mem_map_of_mem hg) _ (List.mem_cons_self ..) he
    rw [List.foldl_cons, recordGrade_new hn, ih]
    · simp
    · simpa using h

/-- Every completed course counts with its own grade. -/
theorem Valid.completedGrades_eq_ok {p : Plan} (h : p.Valid) {grades : List (Json × Option Grade)}
    (hg : p.completedGrades = .ok grades) :
    ∃ es, p.withStatus .completed = .ok es ∧ grades = es.map fun e => (e.code, e.grade) := by
  simp only [completedGrades, bind_eq_ok, pure_eq_ok] at hg
  obtain ⟨es, hes, u, -, rfl⟩ := hg
  refine ⟨es, hes, ?_⟩
  simp only [withStatus, bind_eq_ok, pure_eq_ok] at hes
  obtain ⟨all, hall, rfl⟩ := hes
  refine (foldl_recordGrade ?_).trans (List.nil_append _)
  exact (List.filter_sublist.map _).nodup (((courses_perm hall).map _).nodup_iff.2 h.codes)

/-- No completed code is a planned code. -/
theorem Valid.completed_not_planned {p : Plan} (h : p.Valid) {grades : List (Json × Option Grade)}
    {planned : List Json} (hg : p.completedGrades = .ok grades) (hp : p.plannedCodes = .ok planned) :
    ∀ g ∈ grades, g.1.isIn planned = false := by
  obtain ⟨es, hes, rfl⟩ := h.completedGrades_eq_ok hg
  simp only [withStatus, bind_eq_ok, pure_eq_ok] at hes
  obtain ⟨all, hall, rfl⟩ := hes
  simp only [plannedCodes, hall, ok_bind, bind_eq_ok, pure_eq_ok] at hp
  obtain ⟨u, -, rfl⟩ := hp
  intro g hg
  obtain ⟨e, he, rfl⟩ := List.mem_map.1 hg
  rw [Json.isIn_distinct, Json.isIn_eq_false, List.map_map]
  intro hm
  obtain ⟨f, hf, hfe⟩ := List.mem_map.1 hm
  have hn := ((courses_perm hall).map (·.code.canonical)).nodup_iff.2 h.codes
  rw [List.mem_filter] at he hf
  have : f = e := List.inj_on_of_nodup_map hn hf.1 he.1 hfe
  subst this
  simp [beq_iff_eq.1 he.2] at hf

theorem Reachable.valid {owner : Option String} {p : Plan} (h : Reachable owner p) : p.Valid := by
  induction h with
  | empty => exact valid_empty owner
  | change _ c ih => exact ih.after c
  | restore _ _ hs hr _ ih => exact ih.restore hs hr

/-! ## Terms -/

theorem terms_setCourses {p : Plan} (h : ∀ s ∈ p.semesters, ∃ t : Term, t.id = s.id) {id : Int}
    {cs : List Entry} : ∀ s ∈ (p.setCourses id cs).semesters, ∃ t : Term, t.id = s.id := by
  intro s hs
  obtain ⟨u, hu, rfl⟩ := mem_setCourses hs
  exact h u hu

theorem terms_load {p q : Plan} {d : Json} (hd : p.load d = .ok q) :
    ∀ s ∈ q.semesters, ∃ t : Term, t.id = s.id := by
  intro s hs
  obtain ⟨t, ht⟩ := Option.isSome_iff_exists.1 ((load_eq_ok hd).2.2.1 s hs).term
  exact ⟨t, Term.id_ofId ht⟩

/-- A change leaves the semesters where they are or brings those of terms. -/
theorem terms_make {p q : Plan} {c : Change} (h : ∀ s ∈ p.semesters, ∃ t : Term, t.id = s.id)
    (hq : c.make p = .ok q) : ∀ s ∈ q.semesters, ∃ t : Term, t.id = s.id := by
  cases c <;> simp only [Change.make, map_eq_ok, Prod.exists] at hq
  case addSemester =>
    obtain ⟨r, _, hq, rfl⟩ := hq
    rcases addSemester_eq_ok hq with ⟨-, rfl⟩ | ⟨-, -, term, rfl⟩
    · exact h
    · intro s hs
      rcases List.mem_append.1 hs with hs | hs
      · exact h s hs
      · rw [List.mem_singleton.1 hs]; exact term
  case generate =>
    obtain ⟨r, _, hq, rfl⟩ := hq
    obtain ⟨-, ⟨-, rfl⟩ | ⟨-, ts, -, -, active, rfl⟩⟩ := generate_eq_ok hq
    · exact h
    · intro s hs
      obtain ⟨t, -, rfl⟩ := List.mem_map.1 hs
      exact ⟨t, rfl⟩
  case addCourse =>
    obtain ⟨s, -, -, -, rfl⟩ := addCourse_eq_ok hq
    exact terms_setCourses h
  case removeCourse =>
    obtain ⟨r, _, hq, rfl⟩ := hq
    rcases removeCourse_eq_ok hq with ⟨-, rfl⟩ | ⟨s, e, -, -, -, rfl⟩
    · exact h
    · exact terms_setCourses h
  case moveCourse =>
    obtain ⟨r, _, hq, rfl⟩ := hq
    obtain ⟨s, t, e, -, -, -, ⟨-, rfl⟩ | ⟨-, rfl⟩⟩ := moveCourse_eq_ok hq
    · exact h
    · exact terms_setCourses (terms_setCourses h)
  case setStatus =>
    obtain ⟨r, _, hq, rfl⟩ := hq
    obtain ⟨s, e, -, -, -, rfl⟩ := setStatus_eq_ok hq
    exact terms_setCourses h
  case setGrade =>
    obtain ⟨r, _, hq, rfl⟩ := hq
    obtain ⟨s, e, -, -, -, rfl⟩ := setGrade_eq_ok hq
    exact terms_setCourses h
  case clearPlanned =>
    obtain ⟨r, _, hq, rfl⟩ := hq
    obtain ⟨-, ⟨-, rfl⟩ | ⟨-, rfl⟩⟩ := clearPlanned_eq_ok hq
    · exact h
    · intro s hs
      obtain ⟨t, ht, rfl⟩ := mem_withCourses.1 hs
      exact h t ht
  case clear =>
    cases hq
    exact fun s hs => absurd hs List.not_mem_nil
  case load => exact terms_load hq
  case importText =>
    obtain ⟨a, b, _, hq, rfl⟩ := hq
    rcases importText_eq_ok hq with rfl | ⟨d, hd⟩
    · exact h
    · exact terms_load hd

/-- The semesters of a reachable plan are of terms. -/
theorem Reachable.terms {owner : Option String} {p : Plan} (h : Reachable owner p) :
    ∀ s ∈ p.semesters, ∃ t : Term, t.id = s.id := by
  induction h with
  | empty => nofun
  | @change p _ c ih =>
    unfold Plan.after
    split
    · next hq => exact terms_make ih hq
    · exact ih
  | restore _ _ taken back _ ih =>
    obtain ⟨xs, hx, rfl⟩ := snapshot_eq_ok.1 taken
    obtain ⟨-, rfl⟩ := restore_eq_ok.1 back
    exact fun s hs => ih s ((ordered_perm hx).mem_iff.1 hs)

theorem pairwise_differ {p : Plan} {f : Entry → Json} (h : (p.entries.map fun e => (f e).canonical).Nodup) :
    p.entries.Pairwise fun a b => (f a).same (f b) = false := by
  rw [List.Nodup, List.pairwise_map] at h
  exact h.imp fun {a b} hab => by rw [← Bool.not_eq_true, Json.same_iff]; exact hab

/-- In every reachable plan no two courses share a code or an id, every course names the semester that
holds it, and every semester is found under its own id. So a code counts once as completed, with the
grade of its course, and none of them counts as planned as well. -/
theorem reachable_consistent {owner : Option String} {p : Plan} (h : Reachable owner p) :
    (p.entries.Pairwise fun a b => a.code.same b.code = false) ∧
    (p.entries.Pairwise fun a b => a.id.equals b.id = false) ∧
    (∀ s ∈ p.semesters, ∀ e ∈ s.courses, e.semester.same (.int s.id) = true) ∧
    (∀ s ∈ p.semesters, p.semester? (.int s.id) = some s) ∧
    (∀ grades, p.completedGrades = .ok grades →
      (∃ es, p.withStatus .completed = .ok es ∧ grades = es.map fun e => (e.code, e.grade)) ∧
      (grades.Pairwise fun a b => a.1.same b.1 = false) ∧
      ∀ planned, p.plannedCodes = .ok planned → ∀ g ∈ grades, g.1.isIn planned = false) := by
  have hv := h.valid
  refine ⟨pairwise_differ hv.codes, List.pairwise_map.1 hv.keys, hv.held,
    fun s hs => semester?_of_mem hv.ids hs (Json.same_refl _), fun grades hg => ?_⟩
  obtain ⟨es, hes, rfl⟩ := hv.completedGrades_eq_ok hg
  refine ⟨⟨es, hes, rfl⟩, ?_, fun planned hp => hv.completed_not_planned hg hp⟩
  simp only [withStatus, bind_eq_ok, pure_eq_ok] at hes
  obtain ⟨all, hall, rfl⟩ := hes
  have hd := (courses_perm hall).pairwise_iff (fun {a b} hab => by rw [Json.same_comm]; exact hab) |>.2
    (pairwise_differ hv.codes)
  exact List.pairwise_map.2 (hd.sublist List.filter_sublist)

/-- A course is added and moved, and its code is refused a second time. -/
theorem reachable_consistent_moved :
    let e : Entry := { id := .int 1, code := .str "CS 101", title := .str "", credits := 3, status := .completed
                       semester := .int 202400, grade := none }
    let changes : List Change := [.addSemester (.str "Fall") (.int 2024) (.int 18),
      .addSemester (.str "Spring") (.int 2024) (.int 18), .addCourse e,
      .moveCourse (.int 1) (.int 202400) (.int 202401), .addCourse { e with id := .int 2 }]
    let p := changes.foldl Plan.after ({ owner := some "user-a" } : Plan)
    (p.semester? (.int 202401)).map (·.courses.length) = some 1 ∧ p.entries.length = 1 ∧
      p.entries.Pairwise fun a b => a.code.same b.code = false := by
  intro e changes p
  have reached : Reachable (some "user-a") p := Reachable.empty.changes changes
  exact ⟨by decide +kernel, by decide +kernel, (reachable_consistent reached).1⟩

end DegreePlan.Plan
