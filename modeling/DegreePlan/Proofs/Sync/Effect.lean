import DegreePlan.Proofs.Plan.Reachable
import DegreePlan.Proofs.Sync.Mutation

/-!
# What an effect names

Nothing is written to the backend but what the effect of a mutation names. A semester that is new or has other courses
is named, and so is every course that is gone. For the courses one balance is kept: those that are there afterwards and
those that are gone are those that were there before, and the one that was added.
-/

namespace DegreePlan

namespace Plan

/-- The ids of the courses. -/
def courseIds (p : Plan) : List Json := p.entries.map (·.id.canonical)

@[simp] theorem touch_courseIds (p : Plan) : p.touch.courseIds = p.courseIds := rfl

theorem isIn_ids {p : Plan} {id : Json} : id.isIn (p.entries.map (·.id)) = true ↔ id.canonical ∈ p.courseIds := by
  rw [Json.isIn_iff, List.map_map]
  rfl

theorem Valid.nodup_courseIds {p : Plan} (h : p.Valid) : (p.courseIds.filter fun id => !id.isNaN).Nodup := by
  have := Json.apart_iff_nodup.1 h.keys
  rwa [List.map_map] at this

/-- An id that equals itself but no id of a course is not among them. -/
theorem not_mem_courseIds {p : Plan} {id : Json} (differ : ∀ c ∈ p.entries, c.id.equals id = false)
    (number : id.isNaN = false) : id.canonical ∉ p.courseIds := by
  intro listed
  obtain ⟨c, hc, same⟩ := List.mem_map.1 listed
  have := differ c hc
  rw [Json.equals_eq_same number, Json.same_iff.2 same] at this
  cases this

/-- The courses that are not planned stay. -/
theorem entries_unplanned (l : List Semester) :
    (withCourses unplanned l).flatMap (·.courses) = (l.flatMap (·.courses)).filter (·.status != .planned) := by
  rw [withCourses, List.flatMap_map, List.filter_flatMap]
  rfl

end Plan

namespace Sync

open Plan

variable {p q : Plan} {m : Mutation} {e : Effect}

/-- The ids of the courses that a mutation brings. -/
def Mutation.brought : Mutation → List Json
  | .add entry => [entry.id.canonical]
  | _ => []

/-- The ids of the courses that are gone. -/
def Effect.gone (e : Effect) : List Json := e.deleted.map Json.canonical

/-- The courses that are there afterwards and those that are gone are those that were there and the one that came. -/
theorem Done.balance (h : p.Valid) (hm : Done p m e q) : (q.courseIds ++ e.gone).Perm (m.brought ++ p.courseIds) := by
  -- an exchange keeps the ids of the semester's courses
  have exchanged {v id : Json} {s : Semester} {c r : Entry} (hs : p.semester? v = some s) (hc : s.find? id = some c)
      (hr : SameCourse c r) : (p.setCourses s.id (exchange id r s.courses)).courseIds.Perm p.courseIds := by
    obtain ⟨hsm, -⟩ := semester?_some hs
    obtain ⟨rest, before, after⟩ := entries_setCourses h.ids hsm
    refine ((after _).map _).trans (.trans ?_ (before.map _).symm)
    rw [List.map_append, List.map_append, h.map_exchange hsm hc (·.id.canonical) (by rw [hr.1])]
  cases hm with
  | @added entry s hs =>
    obtain ⟨rest, before, after⟩ := entries_setCourses h.ids (semester?_some hs).1
    have longer : (p.setCourses s.id (s.courses ++ [entry])).entries.Perm (entry :: p.entries) := by
      refine (after _).trans ?_
      rw [List.append_assoc]
      exact List.perm_middle.trans (before.symm.cons _)
    simpa [Effect.gone, Mutation.brought, courseIds] using longer.map (·.id.canonical)
  | @removed semester id s c hs hc =>
    have same : c.id.canonical = id.canonical := Json.same_iff.1 (find?_some hc).2
    have fewer := (h.perm_remove hs hc).map (·.id.canonical)
    rw [List.map_cons, same] at fewer
    show (_ ++ [id.canonical]).Perm _
    exact List.perm_append_comm.trans fewer
  | moved hs ht hc hst =>
    obtain ⟨rest, before, after⟩ := h.perm_move hs ht hc hst
    simpa [Effect.gone, Mutation.brought, courseIds] using (after.map (·.id.canonical)).trans
      (before.symm.map (·.id.canonical))
  | status hs hc hr | grade hs hc hr => simpa [Effect.gone, Mutation.brought] using exchanged hs hc hr
  | absent | stayed | full | bare => simp [Effect.gone, Mutation.brought]
  | generated empty _ _ _ _ hq =>
    have none : p.courseIds = [] := by simp [courseIds, entries, empty]
    have none' : q.courseIds = [] := by simp [courseIds, entries, hq, Semester.ofTerm, List.flatMap_map]
    simp [none, none', Effect.gone, Mutation.brought]
  | cleared hr =>
    simp only [withStatus, bind_eq_ok, pure_eq_ok] at hr
    obtain ⟨all, hall, rfl⟩ := hr
    have kept : ({ p with semesters := withCourses unplanned p.semesters } : Plan).touch.courseIds =
        (p.entries.filter (·.status != .planned)).map (·.id.canonical) :=
          congrArg (List.map _) (entries_unplanned p.semesters)
    have gone := ((courses_perm hall).filter (·.status == .planned)).map (·.id.canonical)
    have parts := (List.filter_append_perm (·.status == .planned) p.entries).map (·.id.canonical)
    rw [List.map_append] at parts
    rw [kept, Effect.gone, List.map_map]
    exact (List.perm_append_comm.trans (gone.append_right _)).trans parts

/-- No number stands twice among the ids of the courses that were there and of the one that came. -/
theorem Done.nodup_brought (h : p.Valid) (hm : Done p m e q) :
    ((m.brought ++ p.courseIds).filter fun id => !id.isNaN).Nodup := by
  cases hm with
  | @added entry s _ _ ids =>
    show ((entry.id.canonical :: p.courseIds).filter fun id => !id.isNaN).Nodup
    rw [List.filter_cons, Json.isNaN_canonical]
    cases number : entry.id.isNaN with
    | true => exact h.nodup_courseIds
    | false =>
      refine List.nodup_cons.2 ⟨fun listed => ?_, h.nodup_courseIds⟩
      exact not_mem_courseIds ids number (List.mem_of_mem_filter listed)
  | _ => exact h.nodup_courseIds

/-- No two courses have the same id if the id of the one that comes compares equal to itself. -/
theorem Done.separate (h : p.Valid) (separate : Separate p) (hm : Done p m e q)
    (numbers : ∀ id ∈ m.brought, id.isNaN = false) : Separate q := by
  have brought : (m.brought ++ p.courseIds).Nodup := by
    cases hm with
    | @added entry s _ _ ids =>
      have number : entry.id.isNaN = false := Json.isNaN_canonical _ ▸ numbers _ (List.mem_singleton_self _)
      exact List.nodup_cons.2 ⟨not_mem_courseIds ids number, separate⟩
    | _ => exact separate
  exact ((hm.balance h).nodup_iff.2 brought).of_append_left

/-- A semester that is not named is as it was. -/
theorem Made.kept (h : p.Valid) (made : Made p q e) (shaped : Shaped p q) {i : Int}
    (unnamed : (Json.int i).isIn e.semesters = false) : q.semester? (.int i) = p.semester? (.int i) := by
  cases hq : q.semester? (.int i) with
  | some s =>
    obtain ⟨hs, same⟩ := semester?_some hq
    obtain rfl := Json.same_int_int.1 same
    rcases made.covered s hs with kept | named
    · exact (semester?_of_mem h.ids kept same).symm
    · exact absurd named (by rw [unnamed]; exact Bool.false_ne_true)
  | none =>
    cases hp : p.semester? (.int i) with
    | none => rfl
    | some s =>
      obtain ⟨hs, same⟩ := semester?_some hp
      obtain ⟨t, ht, hid⟩ := List.mem_map.1 (ids_shaped shaped (List.mem_map_of_mem hs))
      exact absurd (hid.trans (Json.same_int_int.1 same).symm) (semester?_none hq t ht)

/-- A mutation that is made to a valid plan names in its effect what it changes. A semester that has other courses than
before, or is new, is named. The ids that are said to be gone were there and are found no more, and no others are
gone. An effect that names nothing has left the semesters as they were. -/
theorem Mutation.effect_covers (valid : p.Valid) (made : m.apply p = .ok (e, q)) :
    (∀ i : Int, (q.semester? (.int i)).map (·.courses) ≠ (p.semester? (.int i)).map (·.courses) →
      (Json.int i).isIn e.semesters = true) ∧
    (∀ id : Json, id.isIn (p.entries.map (·.id)) = true → id.isIn (q.entries.map (·.id)) = false →
      id.isIn e.deleted = true) ∧
    (∀ id ∈ e.deleted, id.isIn (p.entries.map (·.id)) = true ∧ q.find? id = none) ∧
    (e.semesters = [] → e.deleted = [] → q.semesters = p.semesters) := by
  have done := Mutation.done made
  have balance := done.balance valid
  refine ⟨fun i differ => ?semesters, fun id was absent => ?covered, fun id gone => ⟨?was, ?absent⟩,
    fun none none' => ?unchanged⟩
  case semesters =>
    by_contra unnamed
    exact differ (by rw [(done.made valid).kept valid done.shaped (by simpa using unnamed)])
  case covered =>
    have left : id.canonical ∈ q.courseIds ++ e.gone :=
      balance.mem_iff.2 (List.mem_append_right _ (isIn_ids.1 was))
    rw [Json.isIn_iff]
    exact (List.mem_append.1 left).resolve_left fun there => by simpa [absent] using isIn_ids.2 there
  case was =>
    obtain ⟨c, hc, same⟩ := done.deleted id gone
    exact isIn_ids.2 (List.mem_map.2 ⟨c, hc, Json.same_iff.1 same⟩)
  case absent =>
    have apart := (balance.filter _).nodup_iff.2 (done.nodup_brought valid)
    rw [List.filter_append, List.nodup_append] at apart
    rw [find?, List.find?_eq_none]
    intro c hc equal
    -- the course that stays would stand on both sides
    have same : c.id.canonical = id.canonical := Json.same_iff.1 (Json.same_of_equals equal)
    have number : (!id.canonical.isNaN) = true := by rw [Json.isNaN_canonical, Json.isNaN_of_equals equal]; rfl
    exact apart.2.2 _ (List.mem_filter.2 ⟨List.mem_map_of_mem hc, same ▸ number⟩) _
      (List.mem_filter.2 ⟨List.mem_map_of_mem gone, number⟩) same
  case unchanged => rw [done.eq_of_isEmpty (by simp [Effect.isEmpty, none, none'])]

/-- The planned courses of two semesters are gone, and both semesters are named; the semester without a planned course
is not. -/
theorem Mutation.effect_covers_cleared :
    let course (id : Int) (code : String) (semester : Int) : Entry :=
      { id := .int id, code := .str code, title := .str "", credits := 3, status := .planned,
        semester := .int semester, grade := none }
    let changes : List Change :=
      [.addSemester (.str "Fall") (.int 2024) (.int 18), .addSemester (.str "Spring") (.int 2025) (.int 18),
      .addSemester (.str "Fall") (.int 2025) (.int 18), .addCourse (course 1 "CS 1301" 202400),
      .addCourse (course 2 "CS 1331" 202400), .addCourse (course 3 "CS 1332" 202501),
      .setStatus (.int 202400) (.int 1) (.str "completed") (.str "A")]
    let p := changes.foldl Plan.after ({ owner := some "user-a" } : Plan)
    p.Valid ∧ ∃ e q, Mutation.clearPlanned.apply p = .ok (e, q) ∧ e.semesters = [.int 202400, .int 202501] ∧
      e.deleted = [.int 2, .int 3] ∧ q.find? (.int 2) = none ∧ q.find? (.int 3) = none ∧
      (q.find? (.int 1)).isSome = true := by
  intro course changes p
  have valid : p.Valid := (Reachable.empty.changes changes).valid
  have listed : p.ordered = .ok p.semesters :=
    (ordered_of_dated (by decide +kernel)).trans (congrArg _ (sorted_of_pairwise (by decide +kernel)))
  obtain ⟨⟨e, q⟩, made, semesters, deleted, stays⟩ : ∃ r, Mutation.clearPlanned.apply p = .ok r ∧
      r.1.semesters = [.int 202400, .int 202501] ∧ r.1.deleted = [.int 2, .int 3] ∧
      (r.2.find? (.int 1)).isSome = true := by
    simp only [Mutation.apply, Plan.clearPlanned, withStatus, Plan.courses, listed]
    decide +kernel
  obtain ⟨-, -, gone, -⟩ := Mutation.effect_covers valid made
  have absent (id : Json) (hid : id ∈ [Json.int 2, .int 3]) : q.find? id = none := (gone id (deleted.symm ▸ hid)).2
  exact ⟨valid, e, q, made, semesters, deleted, absent _ (by simp), absent _ (by simp), stays⟩

end Sync
end DegreePlan
