import DegreePlan.Proofs.Plan.Validity
import DegreePlan.Sync.Mutation

/-!
# Mutations of a valid plan

A mutation that is made keeps the plan valid and every semester in it, and it names every semester
that it touched. It raises the version unless it moves a course within its semester.
-/

namespace DegreePlan.Sync

open Plan

/-- What each mutation does when it is made. -/
inductive Done (p : Plan) : Mutation → Effect → Plan → Prop where
  | added {entry : Entry} {s : Semester} (hs : p.semester? entry.semester = some s)
      (codes : ∀ c ∈ p.entries, c.code.same entry.code = false)
      (ids : ∀ c ∈ p.entries, c.id.equals entry.id = false) :
      Done p (.add entry) { semesters := [entry.semester] } (p.setCourses s.id (s.courses ++ [entry])).touch
  | removed {semester id : Json} {s : Semester} {c : Entry} (hs : p.semester? semester = some s)
    (hc : s.find? id = some c) :
      Done p (.remove semester id) { semesters := [semester], deleted := [id] } (p.setCourses s.id (s.without id)).touch
  | absent {semester id : Json} : Done p (.remove semester id) {} p
  | moved {id source target : Json} {s t : Semester} {c : Entry} (hs : p.semester? source = some s)
      (ht : p.semester? target = some t) (hc : s.find? id = some c) (hst : source.same target = false) :
      Done p (.move id source target) { semesters := Json.distinct [source, target] }
        ((p.setCourses s.id (s.without id)).setCourses t.id (t.courses ++ [{ c with semester := target }])).touch
  | stayed {id source target : Json} {s t : Semester} (hs : p.semester? source = some s)
      (ht : p.semester? target = some t) (hst : source.same target = true) :
      Done p (.move id source target) { semesters := Json.distinct [source, target] } p
  | status {semester id status grade : Json} {s : Semester} {c r : Entry} (hs : p.semester? semester = some s)
      (hc : s.find? id = some c) (hr : SameCourse c r) :
      Done p (.setStatus semester id status grade) { semesters := [semester] }
        (p.setCourses s.id (exchange id r s.courses)).touch
  | grade {semester id grade : Json} {s : Semester} {c r : Entry} (hs : p.semester? semester = some s)
      (hc : s.find? id = some c) (hr : SameCourse c r) :
      Done p (.setGrade semester id grade) { semesters := [semester] }
        (p.setCourses s.id (exchange id r s.courses)).touch
  | full {start graduation : Json} : Done p (.generate start graduation) {} p
  | generated {start graduation : Json} {q : Plan} {r : List Semester} {ts : List Term} {active : Term → Bool}
      (empty : p.semesters = []) (made : p.generate start graduation = .ok (r, q))
      (ordered : q.ordered = .ok r) (hts : ts ≠ [])
      (forward : ts.Pairwise fun s t => s.before t = true)
      (hq : q = { p with semesters := ts.map fun t => { Semester.ofTerm t with isActive := active t } }.touch) :
      Done p (.generate start graduation) { semesters := r.map fun s => .int s.id } q
  | bare : Done p .clearPlanned {} p
  | cleared {removed : List Entry} (hr : p.withStatus .planned = .ok removed) (hne : removed ≠ [])
      (made : p.clearPlanned = .ok (removed, { p with semesters := withCourses unplanned p.semesters }.touch)) :
      Done p .clearPlanned { semesters := Json.distinct (removed.map (·.semester)), deleted := removed.map (·.id) }
        { p with semesters := withCourses unplanned p.semesters }.touch

/-- A mutation that is made does just this. -/
theorem Mutation.done {p q : Plan} {e : Effect} {m : Mutation} (hm : m.apply p = .ok (e, q)) : Done p m e q := by
  cases m with
  | add entry =>
    simp only [apply, bind_eq_ok, pure_eq_ok] at hm
    obtain ⟨_, hq, hm⟩ := hm
    cases hm
    obtain ⟨s, hs, hc, hi, rfl⟩ := addCourse_eq_ok hq
    exact .added hs hc hi
  | remove semester id =>
    simp only [apply, bind_eq_ok] at hm
    obtain ⟨⟨r, p'⟩, hq, hm⟩ := hm
    rcases removeCourse_eq_ok hq with ⟨rfl, rfl⟩ | ⟨s, c, hs, hc, rfl, rfl⟩ <;> cases hm
    · exact .absent
    · exact .removed hs hc
  | move id source target =>
    simp only [apply, bind_eq_ok, pure_eq_ok] at hm
    obtain ⟨⟨r, p'⟩, hq, hm⟩ := hm
    cases hm
    obtain ⟨s, t, c, hs, ht, hc, ⟨hst, rfl⟩ | ⟨hst, rfl⟩⟩ := moveCourse_eq_ok hq
    · exact .stayed hs ht hst
    · exact .moved hs ht hc hst
  | setStatus semester id status grade =>
    simp only [apply, bind_eq_ok, pure_eq_ok] at hm
    obtain ⟨⟨r, p'⟩, hq, hm⟩ := hm
    cases hm
    obtain ⟨s, c, hs, hc, hr, rfl⟩ := setStatus_eq_ok hq
    exact .status hs hc hr
  | setGrade semester id grade =>
    simp only [apply, bind_eq_ok, pure_eq_ok] at hm
    obtain ⟨⟨r, p'⟩, hq, hm⟩ := hm
    cases hm
    obtain ⟨s, c, hs, hc, hr, rfl⟩ := setGrade_eq_ok hq
    exact .grade hs hc hr
  | generate start graduation =>
    simp only [apply, bind_eq_ok, pure_eq_ok] at hm
    obtain ⟨l, hl, ⟨r, p'⟩, hq, hm⟩ := hm
    cases hm
    obtain ⟨hr, ⟨-, rfl⟩ | ⟨hnil, ts, hne, hts, active, rfl⟩⟩ := generate_eq_ok hq
    · rw [hl] at hr
      cases hr
      have none : (l.map (·.id)).filter (fun id => !(l.map (·.id)).contains id) = [] := by
        rw [List.filter_eq_nil_iff]
        intro i hi
        simpa using hi
      rw [none]
      exact .full
    · obtain rfl : l = [] := List.perm_nil.1 (hnil ▸ ordered_perm hl)
      have all : ((r.map (·.id)).filter (fun id => !(([] : List Semester).map (·.id)).contains id)).map Json.int =
          r.map fun s => .int s.id := by
        rw [List.filter_eq_self.2 (by simp), List.map_map]
        rfl
      rw [all]
      exact .generated hnil hq hr hne hts rfl
  | clearPlanned =>
    simp only [apply, bind_eq_ok, pure_eq_ok] at hm
    obtain ⟨⟨removed, p'⟩, hq, hm⟩ := hm
    cases hm
    obtain ⟨hr, ⟨rfl, rfl⟩ | ⟨hne, rfl⟩⟩ := clearPlanned_eq_ok hq
    · exact .bare
    · exact .cleared hr hne hq

/-! ## The semesters -/

/-- The semesters keep all but their courses, or an empty plan was filled with the semesters of terms. -/
inductive Shaped (p q : Plan) : Prop where
  | kept (f : Semester → List Entry) (h : q.semesters = withCourses f p.semesters)
  | filled (empty : p.semesters = []) (ts : List Term) (forward : ts.Pairwise fun s t => s.before t = true)
      (active : Term → Bool) (h : q.semesters = ts.map fun t => { Semester.ofTerm t with isActive := active t })

/-- What a mutation that was made did to a plan. -/
structure Made (p q : Plan) (e : Effect) : Prop where
  owner : q.owner = p.owner
  valid : q.Valid
  /-- A semester that is not named is as it was. -/
  covered : ∀ s ∈ q.semesters, s ∈ p.semesters ∨ (Json.int s.id).isIn e.semesters = true
  /-- What is named is a semester. -/
  named : ∀ v ∈ e.semesters, ∃ s ∈ q.semesters, v.same (.int s.id) = true

variable {p q : Plan} {e : Effect}

theorem setCourses_setCourses (p : Plan) (i j : Int) (cs ds : List Entry) :
    ((p.setCourses i cs).setCourses j ds).semesters =
    withCourses (fun s => courseSet j ds { s with courses := courseSet i cs s }) p.semesters := by
  rw [setCourses_semesters, setCourses_semesters, withCourses, withCourses, List.map_map]
  rfl

theorem Done.shaped {m : Mutation} (hm : Done p m e q) : Shaped p q := by
  have same : Shaped p p := .kept (·.courses) (List.map_id _).symm
  cases hm with
  | added | removed | status | grade => exact .kept _ (setCourses_semesters ..)
  | moved => exact .kept _ (setCourses_setCourses ..)
  | stayed | absent | full | bare => exact same
  | generated empty made ordered hts forward hq => exact .filled empty _ forward _ (by rw [hq]; rfl)
  | cleared => exact .kept _ rfl

/-- The plan stays with its owner. -/
theorem Done.owner {m : Mutation} (hm : Done p m e q) : q.owner = p.owner := by
  cases hm with
  | generated empty made ordered hts forward hq => rw [hq]; rfl
  | _ => rfl

/-- What holds of the semesters, whatever their courses, and of those of terms holds of the new ones. -/
theorem Shaped.semesters (h : Shaped p q) {P : Semester → Prop} (hp : ∀ s ∈ p.semesters, P s)
    (hc : ∀ s cs, P s → P { s with courses := cs })
    (ht : ∀ t active, P { Semester.ofTerm t with isActive := active }) : ∀ s ∈ q.semesters, P s := by
  intro s hs
  rcases h with ⟨f, hq⟩ | ⟨-, ts, -, active, hq⟩ <;> rw [hq] at hs
  · obtain ⟨t, hm, rfl⟩ := mem_withCourses.1 hs
    exact hc t _ (hp t hm)
  · obtain ⟨t, -, rfl⟩ := List.mem_map.1 hs
    exact ht t _

theorem Shaped.dated (h : Shaped p q) (hp : ∀ s ∈ p.semesters, s.Dated) : ∀ s ∈ q.semesters, s.Dated :=
  h.semesters hp (fun _ _ hs => hs) Semester.dated_ofTerm

/-- No semester goes and none comes, unless there was none. -/
theorem Shaped.ids (h : Shaped p q) : p.semesters = [] ∨ q.semesters.map (·.id) = p.semesters.map (·.id) := by
  rcases h with ⟨f, hq⟩ | ⟨hp, -⟩
  · rw [hq, withCourses_ids]; exact .inr rfl
  · exact .inl hp

theorem ids_shaped (h : Shaped p q) : p.semesters.map (·.id) ⊆ q.semesters.map (·.id) := by
  rcases h.ids with hp | hq
  · rw [hp]; exact List.nil_subset _
  · rw [hq]; exact List.Subset.refl _

/-- The semesters are of the same times, or all of different times. -/
theorem Shaped.times (h : Shaped p q) :
    q.semesters.map (·.time) = p.semesters.map (·.time) ∨ (q.semesters.map (·.time)).Nodup := by
  rcases h with ⟨f, hq⟩ | ⟨-, ts, hts, active, hq⟩
  · exact .inl (by rw [hq, withCourses, List.map_map]; rfl)
  · refine .inr ?_
    have : q.semesters.map (·.time) = ts := by
      rw [hq, List.map_map]
      refine (List.map_congr_left fun t _ => ?_).trans (List.map_id ts)
      simp [Semester.time, Semester.ofTerm, TermName.ofTerm, TermName.term?, Season.ofText_text]
    rw [this]
    exact hts.imp fun {s t} hst he => by rw [he, Term.before_irrefl] at hst; cases hst

theorem made_nothing (h : p.Valid) (he : ∀ v ∈ e.semesters, ∃ s ∈ p.semesters, v.same (.int s.id) = true) :
    Made p p e :=
  ⟨rfl, h, fun _ hs => .inl hs, he⟩

theorem isIn_of_same {v w : Json} {vs : List Json} (hv : v ∈ vs) (h : v.same w = true) : w.isIn vs = true := by
  rw [← Json.isIn_congr vs h]; exact Json.isIn_of_mem hv

/-- One semester got other courses. -/
theorem made_setCourses {v : Json} {s : Semester} {cs : List Entry} (hs : p.semester? v = some s)
    (h : (p.setCourses s.id cs).Valid) (he : e.semesters = [v]) : Made p (p.setCourses s.id cs).touch e := by
  obtain ⟨hm, hv⟩ := semester?_some hs
  refine ⟨rfl, h.touch, fun t ht => ?_, fun w hw => ?_⟩
  · obtain ⟨u, hu, rfl⟩ := mem_setCourses ht
    by_cases hi : u.id = s.id
    · refine .inr (isIn_of_same (he ▸ List.mem_singleton_self v) ?_)
      rw [show ({ u with courses := courseSet s.id cs u } : Semester).id = s.id from hi]; exact hv
    · refine .inl ?_
      have : courseSet s.id cs u = u.courses := by simp [courseSet, hi]
      rw [this]; exact hu
  · rw [he, List.mem_singleton] at hw
    subst hw
    refine ⟨{ s with courses := courseSet s.id cs s }, ?_, hv⟩
    rw [touch_semesters, setCourses_semesters, mem_withCourses]
    exact ⟨s, hm, rfl⟩

/-- A course went from one semester to another. -/
theorem made_move {id source target : Json} {s t : Semester} {c : Entry} (h : p.Valid)
    (hs : p.semester? source = some s) (ht : p.semester? target = some t) (hc : s.find? id = some c)
    (hst : source.same target = false) (he : e.semesters = Json.distinct [source, target]) :
    Made p ((p.setCourses s.id (s.without id)).setCourses t.id
      (t.courses ++ [{ c with semester := target }])).touch e := by
  have hv := h.move hs ht hc hst
  obtain ⟨hsm, hsi⟩ := semester?_some hs
  obtain ⟨htm, hti⟩ := semester?_some ht
  have shaped := setCourses_setCourses p s.id t.id (s.without id) (t.courses ++ [{ c with semester := target }])
  refine ⟨rfl, hv.touch, fun u hu => ?_, fun v hv' => ?_⟩
  · rw [touch_semesters, shaped] at hu
    obtain ⟨x, hx, rfl⟩ := mem_withCourses.1 hu
    dsimp only
    rw [he, Json.isIn_distinct]
    by_cases h1 : x.id = s.id
    · rw [h1]; exact .inr (isIn_of_same (by simp) hsi)
    by_cases h2 : x.id = t.id
    · rw [h2]; exact .inr (isIn_of_same (by simp) hti)
    refine .inl ?_
    have keep : courseSet t.id (t.courses ++ [{ c with semester := target }])
        { x with courses := courseSet s.id (s.without id) x } = x.courses := by simp [courseSet, h1, h2]
    rw [keep]; exact hx
  · have found : ∀ w ∈ p.semesters, v.same (.int w.id) = true →
      ∃ u ∈ ((p.setCourses s.id (s.without id)).setCourses t.id
        (t.courses ++ [{ c with semester := target }])).touch.semesters, v.same (.int u.id) = true := by
      intro w hw hvw
      rw [touch_semesters, shaped]
      exact ⟨_, mem_withCourses.2 ⟨w, hw, rfl⟩, hvw⟩
    rw [he] at hv'
    have := Json.mem_of_mem_distinct hv'
    simp only [List.mem_cons, List.not_mem_nil, or_false] at this
    rcases this with rfl | rfl
    · exact found s hsm hsi
    · exact found t htm hti

/-- The planned courses went. -/
theorem made_clearPlanned {removed : List Entry} (h : p.Valid) (hr : p.withStatus .planned = .ok removed)
    (hv : ({ p with semesters := withCourses unplanned p.semesters } : Plan).touch.Valid)
    (he : e.semesters = Json.distinct (removed.map (·.semester))) :
    Made p { p with semesters := withCourses unplanned p.semesters }.touch e := by
  simp only [withStatus, bind_eq_ok, pure_eq_ok] at hr
  obtain ⟨all, hall, rfl⟩ := hr
  refine ⟨rfl, hv, fun t ht => ?_, fun v hv => ?_⟩
  · obtain ⟨u, hu, rfl⟩ := mem_withCourses.1 ht
    dsimp only
    by_cases hp : ∃ c ∈ u.courses, c.status = .planned
    · obtain ⟨c, hc, hcp⟩ := hp
      have hca : c ∈ all := (courses_perm hall).mem_iff.2 (mem_entries.2 ⟨u, hu, hc⟩)
      rw [he, Json.isIn_distinct]
      refine .inr (isIn_of_same (List.mem_map_of_mem (List.mem_filter.2 ⟨hca, by simp [hcp]⟩)) (h.held u hu c hc))
    · refine .inl ?_
      have : unplanned u = u.courses := by
        rw [unplanned, List.filter_eq_self]
        exact fun c hc => by simpa using fun hcp => hp ⟨c, hc, hcp⟩
      rw [this]; exact hu
  · rw [he] at hv
    obtain ⟨c, hc, rfl⟩ := List.mem_map.1 (Json.mem_of_mem_distinct hv)
    obtain ⟨u, hu, hcu⟩ := mem_entries.1 ((courses_perm hall).mem_iff.1 (List.mem_of_mem_filter hc))
    exact ⟨{ u with courses := unplanned u }, mem_withCourses.2 ⟨u, hu, rfl⟩, h.held u hu c hcu⟩

/-- A mutation that is made does what `Made` says. -/
theorem Done.made {m : Mutation} (h : p.Valid) (hm : Done p m e q) : Made p q e := by
  cases hm with
  | added hs codes ids =>
    obtain ⟨hsm, hsi⟩ := semester?_some hs
    exact made_setCourses hs (h.append hsm hsi codes ids) rfl
  | removed hs hc => exact made_setCourses hs (h.remove hs) rfl
  | moved hs ht hc hst => exact made_move h hs ht hc hst rfl
  | stayed hs ht hst =>
    refine made_nothing h fun v hv => ?_
    have := Json.mem_of_mem_distinct hv
    simp only [List.mem_cons, List.not_mem_nil, or_false] at this
    rcases this with rfl | rfl
    · exact ⟨_, semester?_some hs⟩
    · exact ⟨_, semester?_some ht⟩
  | status hs hc hr | grade hs hc hr => exact made_setCourses hs (h.exchange hs hc hr) rfl
  | absent | full | bare => exact made_nothing h nofun
  | generated empty made ordered hts forward hq =>
    have hperm := ordered_perm ordered
    have hv := h.generate made
    refine ⟨by rw [hq]; rfl, hv, fun s hs => .inr (Json.isIn_of_mem ?_), fun v hv => ?_⟩
    · exact List.mem_map_of_mem (hperm.mem_iff.2 hs)
    · obtain ⟨s, hs, rfl⟩ := List.mem_map.1 hv
      exact ⟨s, hperm.mem_iff.1 hs, Json.same_refl _⟩
  | cleared hr hne made => exact made_clearPlanned h hr (h.clearPlanned made) rfl

/-! ## The version -/

/-- Moves a course within its semester. -/
def Mutation.Idle : Mutation → Prop
  | .move _ source target => source.same target = true
  | _ => False

instance : DecidablePred Mutation.Idle
  | .move _ source target => inferInstanceAs (Decidable (source.same target = true))
  | .add _ | .remove .. | .setStatus .. | .setGrade .. | .generate .. | .clearPlanned => instDecidableFalse

theorem distinct_cons_ne_nil (v : Json) (vs : List Json) : Json.distinct (v :: vs) ≠ [] := by
  intro h
  have := Json.isIn_distinct v (v :: vs)
  rw [h, Json.isIn_of_mem (List.mem_cons_self ..)] at this
  cases this

/-- A mutation that is made raises the version, unless it finds nothing to do or moves a course within
its semester; then the plan stays as it was. -/
theorem Done.version_cases {m : Mutation} (hm : Done p m e q) :
    (q = p ∧ (e.isEmpty = true ∨ m.Idle)) ∨ (q.version = p.version + 1 ∧ e.isEmpty = false) := by
  cases hm with
  | added | removed | status | grade => exact .inr ⟨rfl, rfl⟩
  | absent | full | bare => exact .inl ⟨rfl, .inl rfl⟩
  | moved => exact .inr ⟨rfl, by simp [Effect.isEmpty, distinct_cons_ne_nil]⟩
  | stayed hs ht hst => exact .inl ⟨rfl, .inr hst⟩
  | generated empty made ordered hts forward hq =>
    have hperm := ordered_perm ordered
    refine .inr ⟨by rw [hq]; rfl, ?_⟩
    rw [hq] at hperm
    simpa [Effect.isEmpty, hts] using fun hr => hts (by simpa [hr] using hperm.length_eq.symm)
  | cleared hr hne made => exact .inr ⟨rfl, by simp [Effect.isEmpty, hne]⟩

/-- A mutation that finds nothing to do leaves the plan as it was. -/
theorem Done.eq_of_isEmpty {m : Mutation} (hm : Done p m e q) (he : e.isEmpty = true) : q = p := by
  rcases hm.version_cases with ⟨h, -⟩ | ⟨-, h⟩
  · exact h
  · rw [he] at h; cases h

/-! ## The courses -/

/-- Two courses differ in status, semester and grade at most. -/
structure Alike (a b : Entry) : Prop where
  id : a.id = b.id
  code : a.code = b.code
  title : a.title = b.title
  credits : a.credits = b.credits

/-- Every course was there before, or is the one that was added. -/
theorem Done.courses {m : Mutation} (hm : Done p m e q) :
    ∀ c ∈ q.entries, m = .add c ∨ ∃ d ∈ p.entries, Alike d c := by
  have kept : ∀ c ∈ p.entries, m = .add c ∨ ∃ d ∈ p.entries, Alike d c :=
    fun c hc => .inr ⟨c, hc, rfl, rfl, rfl, rfl⟩
  have found : ∀ {v id : Json} {s : Semester} {d : Entry}, p.semester? v = some s →
    s.find? id = some d → d ∈ p.entries :=
    fun hs hd => mem_entries.2 ⟨_, (semester?_some hs).1, (find?_some hd).1⟩
  have within : ∀ {v : Json} {s : Semester}, p.semester? v = some s →
      ∀ c ∈ s.courses, c ∈ p.entries := fun hs c hc =>
    mem_entries.2 ⟨_, (semester?_some hs).1, hc⟩
  intro c hc
  cases hm with
  | absent | stayed | full | bare => exact kept c hc
  | added hs =>
    rcases mem_entries_setCourses hc with hc | hc
    · rcases List.mem_append.1 hc with hc | hc
      · exact kept c (within hs c hc)
      · exact .inl (by rw [List.mem_singleton.1 hc])
    · exact kept c hc
  | removed hs =>
    rcases mem_entries_setCourses hc with hc | hc
    · exact kept c (within hs c (List.mem_of_mem_filter hc))
    · exact kept c hc
  | moved hs ht hd =>
    rcases mem_entries_setCourses hc with hc | hc
    · rcases List.mem_append.1 hc with hc | hc
      · exact kept c (within ht c hc)
      · rw [List.mem_singleton.1 hc]
        exact .inr ⟨_, found hs hd, rfl, rfl, rfl, rfl⟩
    · rcases mem_entries_setCourses hc with hc | hc
      · exact kept c (within hs c (List.mem_of_mem_filter hc))
      · exact kept c hc
  | status hs hd hr | grade hs hd hr =>
    rcases mem_entries_setCourses hc with hc | hc
    · rcases mem_exchange hc with rfl | hc
      · exact .inr ⟨_, found hs hd, hr.1, hr.2.1, hr.2.2.1, hr.2.2.2.1⟩
      · exact kept c (within hs c hc)
    · exact kept c hc
  | generated empty made ordered hts forward hq =>
    rw [hq] at hc
    obtain ⟨s, hs, hc⟩ := mem_entries.1 hc
    obtain ⟨t, -, rfl⟩ := List.mem_map.1 hs
    cases hc
  | cleared =>
    obtain ⟨s, hs, hc⟩ := mem_entries.1 hc
    obtain ⟨t, ht, rfl⟩ := mem_withCourses.1 hs
    exact kept c (mem_entries.2 ⟨t, ht, List.mem_of_mem_filter hc⟩)

/-- What is gone was there. -/
theorem Done.deleted {m : Mutation} (hm : Done p m e q) :
    ∀ v ∈ e.deleted, ∃ c ∈ p.entries, c.id.same v = true := by
  intro v hv
  cases hm with
  | removed hs hc =>
    rw [List.mem_singleton.1 hv]
    exact ⟨_, mem_entries.2 ⟨_, (semester?_some hs).1, (find?_some hc).1⟩, (find?_some hc).2⟩
  | cleared hr =>
    obtain ⟨c, hc, rfl⟩ := List.mem_map.1 hv
    simp only [withStatus, bind_eq_ok, pure_eq_ok] at hr
    obtain ⟨all, hall, rfl⟩ := hr
    exact ⟨c, (courses_perm hall).mem_iff.1 (List.mem_of_mem_filter hc), Json.same_refl _⟩
  | _ => cases hv

/-- Every id can be looked up. -/
def Keyed (p : Plan) : Prop := ∀ e ∈ p.entries, e.id.isKey = true

/-- A course that is added has an id that can be looked up. -/
def Mutation.Plain : Mutation → Prop
  | .add entry => entry.id.isKey = true
  | _ => True

instance : DecidablePred Mutation.Plain
  | .add entry => inferInstanceAs (Decidable (entry.id.isKey = true))
  | .remove .. | .move .. | .setStatus .. | .setGrade .. | .generate .. | .clearPlanned => instDecidableTrue

/-- Ids stay fit to be looked up, and so are those that are gone. -/
theorem Done.keyed {m : Mutation} (hk : Keyed p) (hp : m.Plain) (hm : Done p m e q) :
    Keyed q ∧ ∀ v ∈ e.deleted, v.isKey = true := by
  refine ⟨fun c hc => ?_, fun v hv => ?_⟩
  · rcases hm.courses c hc with rfl | ⟨d, hd, hdc⟩
    · exact hp
    · rw [← hdc.id]; exact hk d hd
  · obtain ⟨c, hc, hs⟩ := hm.deleted v hv
    exact Json.isKey_of_same (Json.same_symm hs) (hk c hc)

end DegreePlan.Sync
