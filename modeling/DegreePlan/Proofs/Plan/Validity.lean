import Mathlib.Data.List.Flatten
import Mathlib.Data.List.Perm.Subperm
import DegreePlan.Plan.Document
import DegreePlan.Plan.Review
import DegreePlan.Proofs.Plan.Change

/-!
# Valid plans

In a valid plan no code and no id stands twice, every course names the semester that holds it, and
every semester is found under its own id. Every change keeps a plan valid, and so do loads, imports
and restores, which replace the plan as a whole.
-/

namespace DegreePlan.Plan

/-- Semesters have ids of their own, courses have codes of their own and ids of which no two compare equal, and every
course is in the semester it names. -/
structure Valid (p : Plan) : Prop where
  ids : (p.semesters.map (·.id)).Nodup
  codes : (p.entries.map (·.code.canonical)).Nodup
  keys : Json.Apart (p.entries.map (·.id))
  held : ∀ s ∈ p.semesters, ∀ e ∈ s.courses, e.semester.same (.int s.id) = true

/-- No two courses have the same id, not even one that does not compare equal to itself. A load asks for it. -/
def Separate (p : Plan) : Prop := (p.entries.map (·.id.canonical)).Nodup

theorem Separate.keys {p : Plan} (h : Separate p) : Json.Apart (p.entries.map (·.id)) :=
  Json.apart_of_nodup (by rw [List.map_map]; exact h)

/-- The plan with some of its semesters. -/
def only (P : Semester → Bool) (p : Plan) : Plan := { p with semesters := p.semesters.filter P }

theorem mem_only {P : Semester → Bool} {p : Plan} {s : Semester} :
    s ∈ (p.only P).semesters ↔ s ∈ p.semesters ∧ P s = true :=
  List.mem_filter

theorem valid_empty (owner : Option String) : ({ owner } : Plan).Valid :=
  ⟨List.nodup_nil, List.nodup_nil, Json.apart_nil, nofun⟩

namespace Valid

variable {p q : Plan} {s : Semester} {e : Entry}

theorem touch (h : p.Valid) : p.touch.Valid := ⟨h.ids, h.codes, h.keys, h.held⟩

/-- The order of the semesters does not matter. -/
theorem of_perm (h : p.Valid) (hq : q.semesters.Perm p.semesters) : q.Valid where
  ids := (hq.map _).nodup_iff.2 h.ids
  codes := ((hq.flatMap_right _).map _).nodup_iff.2 h.codes
  keys := (Json.apart_perm ((hq.flatMap_right _).map _)).2 h.keys
  held s hs := h.held s (hq.mem_iff.1 hs)

/-- Ids that compare equal to themselves are ids of one course each. -/
theorem separate (h : p.Valid) (numbers : ∀ e ∈ p.entries, e.id.isNaN = false) : Separate p := by
  have keys := Json.apart_iff_nodup.1 h.keys
  rw [List.map_map, List.filter_eq_self.2] at keys
  · exact keys
  · refine List.forall_mem_map.2 fun e he => ?_
    rw [Function.comp_apply, Json.isNaN_canonical, numbers e he]
    rfl

/-- Some of the semesters make a valid plan as well. -/
theorem only (h : p.Valid) (P : Semester → Bool) : (p.only P).Valid where
  ids := (List.filter_sublist.map _).nodup h.ids
  codes := ((List.filter_sublist.flatMap _).map _).nodup h.codes
  keys := h.keys.sublist ((List.filter_sublist.flatMap _).map _)
  held s hs := h.held s (mem_only.1 hs).1

theorem keys_in (h : p.Valid) (hs : s ∈ p.semesters) : Json.Apart (s.courses.map (·.id)) := by
  obtain ⟨rest, hp, -⟩ := entries_setCourses h.ids hs
  exact ((Json.apart_perm (hp.map _)).1 h.keys).sublist ((List.sublist_append_left _ _).map _)

/-- The course that was found is the only one of its semester with the id. -/
theorem split_found (h : p.Valid) {id : Json} (hs : s ∈ p.semesters) (he : s.find? id = some e) :
    ∃ l m, s.courses = l ++ e :: m ∧ ∀ c ∈ l ++ m, c.id.same id = false := by
  obtain ⟨hm, hi⟩ := find?_some he
  obtain ⟨l, m, hl⟩ := List.append_of_mem hm
  refine ⟨l, m, hl, fun c hc => ?_⟩
  have apart := h.keys_in hs
  rw [hl, Json.apart_perm (List.perm_middle.map _), List.map_cons, Json.apart_cons] at apart
  rw [← Bool.not_eq_true]
  intro same
  have := apart.1 _ (List.mem_map_of_mem hc)
  rw [Json.equals_eq_same (Json.isNaN_of_same same ▸ isNaN_of_find? he)] at this
  exact Bool.false_ne_true (this.symm.trans (Json.same_trans hi (Json.same_symm same)))

/-- One semester gets other courses: they must differ from each other and from the rest. -/
theorem setCourses {cs : List Entry} (h : p.Valid) (hs : s ∈ p.semesters)
    (hc : ∀ rest, p.entries.Perm (s.courses ++ rest) →
      ((cs ++ rest).map (·.code.canonical)).Nodup ∧ Json.Apart ((cs ++ rest).map (·.id)))
    (hh : ∀ e ∈ cs, e.semester.same (.int s.id) = true) : (p.setCourses s.id cs).Valid := by
  obtain ⟨rest, hp, hq⟩ := entries_setCourses h.ids hs
  refine ⟨?_, ((hq cs).map _).nodup_iff.2 (hc rest hp).1, (Json.apart_perm ((hq cs).map _)).2 (hc rest hp).2, ?_⟩
  · rw [setCourses_semesters, withCourses_ids]; exact h.ids
  · intro t ht e he
    obtain ⟨u, hu, rfl⟩ := mem_setCourses ht
    simp only [courseSet] at he ⊢
    split at he
    · next hi => rw [beq_iff_eq.1 hi]; exact hh e he
    · exact h.held u hu e he

/-- A course of a new code and a new id may be put at the end of the semester it names. -/
theorem append (h : p.Valid) (hs : s ∈ p.semesters) (hh : e.semester.same (.int s.id) = true)
    (hc : ∀ c ∈ p.entries, c.code.same e.code = false) (hi : ∀ c ∈ p.entries, c.id.equals e.id = false) :
    (p.setCourses s.id (s.courses ++ [e])).Valid := by
  refine h.setCourses hs (fun rest hp => ?_) fun c hc => ?_
  · have hq : (s.courses ++ [e] ++ rest).Perm (e :: p.entries) := by
      rw [List.append_assoc]
      exact List.perm_middle.trans (hp.symm.cons e)
    constructor
    · refine (hq.map _).nodup_iff.2 (List.nodup_cons.2 ⟨fun he => ?_, h.codes⟩)
      obtain ⟨c, hm, he⟩ := List.mem_map.1 he
      exact Bool.false_ne_true ((hc c hm).symm.trans (Json.same_iff.2 he))
    · refine (Json.apart_perm (hq.map _)).2 (Json.apart_cons.2 ⟨fun id hid => ?_, h.keys⟩)
      obtain ⟨c, hm, rfl⟩ := List.mem_map.1 hid
      rw [Json.equals_comm]
      exact hi c hm
  · rcases List.mem_append.1 hc with hc | hc
    · exact h.held s hs c hc
    · rw [List.mem_singleton.1 hc]; exact hh

/-- Some courses of a semester may go. -/
theorem sublist {cs : List Entry} (h : p.Valid) (hs : s ∈ p.semesters) (hc : cs.Sublist s.courses) :
    (p.setCourses s.id cs).Valid := by
  refine h.setCourses hs (fun rest hp => ?_) fun e he => h.held s hs e (hc.subset he)
  have hl : (cs ++ rest).Sublist (s.courses ++ rest) := hc.append_right rest
  exact ⟨(hl.map _).nodup ((hp.map _).nodup_iff.1 h.codes),
    Json.Apart.sublist ((Json.apart_perm (hp.map _)).1 h.keys) (hl.map _)⟩

/-- With ids of their own, just one course of a semester goes. -/
theorem perm_without (h : p.Valid) {id : Json} (hs : s ∈ p.semesters) (he : s.find? id = some e) :
    s.courses.Perm (e :: s.without id) := by
  obtain ⟨l, m, hl, other⟩ := h.split_found hs he
  have keep : s.without id = l ++ m := by
    simp only [Semester.without, Json.equals_eq_same (isNaN_of_find? he)]
    rw [hl, List.filter_append, List.filter_cons, (find?_some he).2]
    simp only [Bool.not_true, Bool.false_eq_true, ↓reduceIte]
    rw [← List.filter_append, List.filter_eq_self]
    intro c hc
    rw [other c hc, Bool.not_false]
  rw [keep, hl]
  exact List.perm_middle

/-- With ids of their own, just one course is exchanged. -/
theorem map_exchange {β : Type} (h : p.Valid) {id : Json} {r : Entry} (hs : s ∈ p.semesters)
    (he : s.find? id = some e) (f : Entry → β) (hf : f e = f r) :
    (exchange id r s.courses).map f = s.courses.map f := by
  obtain ⟨l, m, hl, other⟩ := h.split_found hs he
  rw [exchange, List.map_map]
  refine List.map_congr_left fun c hc => ?_
  by_cases hci : c.id.same id = true
  · have : c = e := by
      rw [hl, List.mem_append, List.mem_cons, or_left_comm, ← List.mem_append] at hc
      exact hc.resolve_right fun hc => Bool.false_ne_true ((other c hc).symm.trans hci)
    subst this
    simp [hci, hf]
  · simp [hci]

/-! ## Each change -/

theorem addCourse (h : p.Valid) (hq : p.addCourse e = .ok q) : q.Valid := by
  obtain ⟨s, hs, hc, hi, rfl⟩ := addCourse_eq_ok hq
  obtain ⟨hm, hid⟩ := semester?_some hs
  exact (h.append hm hid hc hi).touch

theorem remove (h : p.Valid) {id semester : Json} (hs : p.semester? semester = some s) :
    (p.setCourses s.id (s.without id)).Valid :=
  h.sublist (semester?_some hs).1 List.filter_sublist

theorem removeCourse (h : p.Valid) {semester id : Json} {r : Option Entry}
    (hq : p.removeCourse semester id = .ok (r, q)) : q.Valid := by
  rcases removeCourse_eq_ok hq with ⟨-, rfl⟩ | ⟨s, e, hs, -, -, rfl⟩
  · exact h
  · exact (h.remove hs).touch

/-- What is left with the course that went makes up the plan. -/
theorem perm_remove (h : p.Valid) {id semester : Json} (hs : p.semester? semester = some s) (he : s.find? id = some e) :
    (e :: (p.setCourses s.id (s.without id)).entries).Perm p.entries := by
  have hsm := (semester?_some hs).1
  obtain ⟨rest, hp, hq⟩ := entries_setCourses h.ids hsm
  exact ((hq _).cons e).trans (((h.perm_without hsm he).append_right rest).symm.trans hp.symm)

/-- The semester that a course moves to is as it was when the course has left its own. -/
theorem target_kept {source target : Json} {t : Semester} (hs : p.semester? source = some s)
    (ht : p.semester? target = some t) (hst : source.same target = false) (cs : List Entry) :
    t ∈ (p.setCourses s.id cs).semesters := by
  obtain ⟨-, hsi⟩ := semester?_some hs
  obtain ⟨htm, hti⟩ := semester?_some ht
  have hne : t.id ≠ s.id := fun hn =>
    Bool.false_ne_true (hst.symm.trans (Json.same_trans hsi (hn ▸ Json.same_symm hti)))
  rw [setCourses_semesters, mem_withCourses]
  exact ⟨t, htm, by simp [courseSet, hne]⟩

/-- A course that leaves one semester may be put at the end of another. -/
theorem move (h : p.Valid) {id source target : Json} {t : Semester} (hs : p.semester? source = some s)
    (ht : p.semester? target = some t) (he : s.find? id = some e) (hst : source.same target = false) :
    ((p.setCourses s.id (s.without id)).setCourses t.id (t.courses ++ [{ e with semester := target }])).Valid := by
  -- what is left differs from the course that went, as it did before
  have codes := ((h.perm_remove hs he).map (·.code.canonical)).nodup_iff.2 h.codes
  have keys := (Json.apart_perm ((h.perm_remove hs he).map (·.id))).2 h.keys
  rw [List.map_cons, List.nodup_cons] at codes
  rw [List.map_cons, Json.apart_cons] at keys
  refine (h.remove hs).append (target_kept hs ht hst _) (semester?_some ht).2 (fun c hc => ?_) fun c hc => ?_
  · rw [← Bool.not_eq_true]
    exact fun same => codes.1 (List.mem_map.2 ⟨c, hc, Json.same_iff.1 same⟩)
  · rw [Json.equals_comm]
    exact keys.1 _ (List.mem_map_of_mem hc)

/-- A course that moves goes from its semester and comes into the other one. -/
theorem perm_move (h : p.Valid) {id source target : Json} {t : Semester} (hs : p.semester? source = some s)
    (ht : p.semester? target = some t) (he : s.find? id = some e) (hst : source.same target = false) :
    ∃ rest, p.entries.Perm (e :: rest) ∧
      ((p.setCourses s.id (s.without id)).setCourses t.id (t.courses ++ [{ e with semester := target }])).entries.Perm
        ({ e with semester := target } :: rest) := by
  -- without the course the plan is valid, and its target is as it was
  have left : (p.setCourses s.id (s.without id)).Valid := h.remove hs
  obtain ⟨rest, before, after⟩ := entries_setCourses left.ids (target_kept hs ht hst _)
  refine ⟨_, (h.perm_remove hs he).symm, (after _).trans ?_⟩
  rw [List.append_assoc]
  exact List.perm_middle.trans (before.symm.cons _)

theorem moveCourse (h : p.Valid) {id source target : Json} {r : Entry}
    (hq : p.moveCourse id source target = .ok (r, q)) : q.Valid := by
  obtain ⟨s, t, e, hs, ht, he, ⟨-, rfl⟩ | ⟨hst, rfl⟩⟩ := moveCourse_eq_ok hq
  · exact h
  · exact (h.move hs ht he hst).touch

theorem exchange (h : p.Valid) {semester id : Json} {r : Entry} (hs : p.semester? semester = some s)
    (he : s.find? id = some e) (hr : SameCourse e r) : (p.setCourses s.id (exchange id r s.courses)).Valid := by
  obtain ⟨hm, -⟩ := semester?_some hs
  refine h.setCourses hm (fun rest hp => ?_) fun c hc => ?_
  · have hc : (Plan.exchange id r s.courses).map (·.code.canonical) = s.courses.map (·.code.canonical) :=
      h.map_exchange hm he _ (by rw [hr.2.1])
    have hi : (Plan.exchange id r s.courses).map (·.id) = s.courses.map (·.id) := h.map_exchange hm he _ hr.1
    rw [List.map_append, List.map_append, hc, hi, ← List.map_append, ← List.map_append]
    exact ⟨(hp.map _).nodup_iff.1 h.codes, (Json.apart_perm (hp.map _)).1 h.keys⟩
  · obtain ⟨d, hd, rfl⟩ := List.mem_map.1 hc
    split
    · rw [← hr.2.2.2.2]; exact h.held s hm e (find?_some he).1
    · exact h.held s hm d hd

theorem setStatus (h : p.Valid) {semester id status grade : Json} {r : Entry}
    (hq : p.setStatus semester id status grade = .ok (r, q)) : q.Valid := by
  obtain ⟨s, e, hs, he, hr, rfl⟩ := setStatus_eq_ok hq
  exact (h.exchange hs he hr).touch

theorem setGrade (h : p.Valid) {semester id grade : Json} {r : Entry}
    (hq : p.setGrade semester id grade = .ok (r, q)) : q.Valid := by
  obtain ⟨s, e, hs, he, hr, rfl⟩ := setGrade_eq_ok hq
  exact (h.exchange hs he hr).touch

theorem clearPlanned (h : p.Valid) {removed : List Entry} (hq : p.clearPlanned = .ok (removed, q)) : q.Valid := by
  obtain ⟨-, ⟨-, rfl⟩ | ⟨-, rfl⟩⟩ := clearPlanned_eq_ok hq
  · exact h
  have hl : ((withCourses unplanned p.semesters).flatMap (·.courses)).Sublist p.entries := by
    rw [withCourses, List.flatMap_map, Plan.entries]
    generalize p.semesters = l
    induction l with
    | nil => exact .slnil
    | cons s l ih => exact List.filter_sublist.append ih
  refine ⟨?_, (hl.map _).nodup h.codes, h.keys.sublist (hl.map _), fun t ht e he => ?_⟩
  · rw [touch_semesters, withCourses_ids]; exact h.ids
  · obtain ⟨s, hs, rfl⟩ := mem_withCourses.1 ht
    exact h.held s hs e (List.mem_of_mem_filter he)

theorem addSemester (h : p.Valid) {season year maxCredits : Json} {r : Semester}
    (hq : p.addSemester season year maxCredits = .ok (r, q)) : q.Valid := by
  rcases addSemester_eq_ok hq with ⟨-, rfl⟩ | ⟨hn, hc, -, rfl⟩
  · exact h
  refine Valid.touch ⟨?_, ?_, ?_, fun s hs => ?_⟩
  · rw [List.map_append, List.map_singleton, List.nodup_append_comm, List.singleton_append, List.nodup_cons]
    exact ⟨fun hr => by obtain ⟨t, ht, hid⟩ := List.mem_map.1 hr; exact hn t ht hid, h.ids⟩
  · simpa [Plan.entries, hc] using h.codes
  · simpa [Plan.entries, hc] using h.keys
  · rcases List.mem_append.1 hs with hs | hs
    · exact h.held s hs
    · rw [List.mem_singleton.1 hs, hc]; simp

theorem generate (h : p.Valid) {start graduation current : Json} {r : List Semester}
    (hq : p.generate start graduation current = .ok (r, q)) : q.Valid := by
  obtain ⟨-, ⟨-, rfl⟩ | ⟨-, ts, -, hp, active, rfl⟩⟩ := generate_eq_ok hq
  · exact h
  have bare : ∀ s ∈ ts.map fun t => { Semester.ofTerm t with isActive := active t }, s.courses = [] := by
    intro s hs
    obtain ⟨t, -, rfl⟩ := List.mem_map.1 hs
    rfl
  have none : (ts.map fun t => { Semester.ofTerm t with isActive := active t }).flatMap (·.courses) = [] := by
    rw [List.flatMap_eq_nil_iff]; exact bare
  refine Valid.touch ⟨?_, ?_, ?_, fun s hs => ?_⟩
  · rw [List.map_map]
    exact Term.nodup_ids hp
  · rw [Plan.entries, none]; exact List.nodup_nil
  · rw [Plan.entries, none]; exact Json.apart_nil
  · rw [bare s hs]; simp

end Valid
end DegreePlan.Plan
