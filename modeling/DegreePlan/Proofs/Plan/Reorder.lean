import DegreePlan.Proofs.Plan.Validity

/-!
# Plans in another order

A plan that goes back to a snapshot holds its semesters by time, and not in the order in which they
were added. No change depends on this order: what succeeds on a plan succeeds on a plan that lists
the same semesters, with the same result, and the two list the same semesters again.
-/

namespace DegreePlan.Plan

/-- Both plans list the same semesters. -/
def Reordered (p q : Plan) : Prop := sorted p.semesters = sorted q.semesters

namespace Reordered

variable {p q r : Plan}

theorem symm (h : Reordered p q) : Reordered q p := Eq.symm h

theorem trans (h : Reordered p q) (k : Reordered q r) : Reordered p r := Eq.trans h k

theorem of_eq (h : p.semesters = q.semesters) : Reordered p q := congrArg sorted h

theorem perm (h : Reordered p q) : p.semesters.Perm q.semesters :=
  (sorted_perm p.semesters).symm.trans (h ▸ sorted_perm q.semesters)

theorem entries (h : Reordered p q) : p.entries.Perm q.entries := h.perm.flatMap_right _

theorem valid (h : Reordered p q) (hp : p.Valid) : q.Valid := hp.of_perm h.perm.symm

/-! ## Reading -/

theorem ordered (h : Reordered p q) : p.ordered = q.ordered := by
  by_cases hd : ∀ s ∈ p.semesters, s.Dated
  · rw [ordered_of_dated hd, ordered_of_dated fun s hs => hd s (h.perm.mem_iff.2 hs)]
    exact congrArg _ h
  · rw [ordered_of_undated hd, ordered_of_undated fun hq => hd fun s hs => hq s (h.perm.mem_iff.1 hs)]

theorem withStatus (h : Reordered p q) (status : Status) : p.withStatus status = q.withStatus status := by
  simp only [Plan.withStatus, courses, h.ordered]

theorem semester? (h : Reordered p q) (hp : p.Valid) (id : Json) : p.semester? id = q.semester? id := by
  cases hq : q.semester? id with
  | some s =>
    obtain ⟨hm, hi⟩ := semester?_some hq
    exact semester?_of_mem hp.ids (h.perm.mem_iff.2 hm) hi
  | none =>
    rw [Plan.semester?, List.find?_eq_none] at hq ⊢
    exact fun s hs => hq s (h.perm.mem_iff.1 hs)

theorem lookup (h : Reordered p q) (hp : p.Valid) (id : Json) : p.lookup id = q.lookup id := by
  simp only [Plan.lookup, h.semester? hp]

theorem semester (h : Reordered p q) (hp : p.Valid) (id : Json) : p.semester id = q.semester id := by
  simp only [Plan.semester, h.lookup hp]

/-! ## Changing -/

theorem touch (h : Reordered p q) : Reordered p.touch q.touch := h

theorem withCourses (h : Reordered p q) (f : Semester → List Entry) :
    Reordered { p with semesters := withCourses f p.semesters } { q with
        semesters := Plan.withCourses f q.semesters } := by
  simp only [Reordered, sorted_withCourses]
  exact congrArg _ h

theorem setCourses (h : Reordered p q) (id : Int) (cs : List Entry) :
    Reordered (p.setCourses id cs) (q.setCourses id cs) := by
  simp only [Reordered, setCourses_semesters, sorted_withCourses]
  exact congrArg _ h

end Reordered

/-- What the first gives, the second gives as well, with a plan that lists the same semesters. -/
def Echoes {α : Type} (x y : Except Fault (α × Plan)) : Prop :=
  ∀ a p, x = .ok (a, p) → ∃ q, y = .ok (a, q) ∧ Reordered p q

section

variable {α β : Type}

theorem echoes_pure {p q : Plan} (a : α) (h : Reordered p q) : Echoes (pure (a, p)) (pure (a, q)) := by
  intro b r hr
  cases hr
  exact ⟨q, rfl, h⟩

theorem Echoes.bind {x : Except Fault β} {f g : β → Except Fault (α × Plan)} (h : ∀ b, Echoes (f b) (g b)) :
    Echoes (x >>= f) (x >>= g) := by
  intro a p hp
  obtain ⟨b, hb, hp⟩ := bind_eq_ok.1 hp
  obtain ⟨q, hq, hpq⟩ := h b a p hp
  exact ⟨q, bind_eq_ok.2 ⟨b, hb, hq⟩, hpq⟩

/-- What is made of equal results and plans in another order is again equal but for the order. -/
theorem Echoes.then {x y : Except Fault (β × Plan)} {f g : β × Plan → Except Fault (α × Plan)} (h : Echoes x y)
    (k : ∀ b p q, Reordered p q → Echoes (f (b, p)) (g (b, q))) : Echoes (x >>= f) (y >>= g) := by
  intro a p hp
  obtain ⟨⟨b, p'⟩, hb, hp⟩ := bind_eq_ok.1 hp
  obtain ⟨q', hq', hpq'⟩ := h b p' hb
  obtain ⟨q, hq, hpq⟩ := k b p' q' hpq' a p hp
  exact ⟨q, bind_eq_ok.2 ⟨(b, q'), hq', hq⟩, hpq⟩

end

/-- A course of a new code and a new id is added to the semester it names. -/
theorem addCourse_ok {p : Plan} {e : Entry} {s : Semester} (hs : p.semester? e.semester = some s)
    (hc : ∀ c ∈ p.entries, c.code.same e.code = false) (hi : ∀ c ∈ p.entries, c.id.equals e.id = false) :
    p.addCourse e = .ok (p.setCourses s.id (s.courses ++ [e])).touch := by
  obtain ⟨hm, hid⟩ := semester?_some hs
  have found : p.semester e.semester = .ok s := semester_eq_ok.2 ⟨Json.isKey_of_same hid rfl, hs⟩
  have here : (s.courses.any fun c => c.code.same e.code) = false := by
    rw [List.any_eq_false]
    exact fun c hcs => by rw [hc c (mem_entries.2 ⟨s, hm, hcs⟩)]; exact Bool.false_ne_true
  have code : p.findCode? e.code = none := by
    rw [findCode?, List.find?_eq_none]
    exact fun c hcp => by rw [hc c hcp]; exact Bool.false_ne_true
  have key : p.find? e.id = none := by
    rw [find?, List.find?_eq_none]
    exact fun c hcp => by rw [hi c hcp]; exact Bool.false_ne_true
  simp only [addCourse, found, ok_bind, here, code, key]
  rfl

namespace Reordered

variable {p q : Plan} (h : Reordered p q) (hp : p.Valid)

include h hp

theorem addCourse {e : Entry} {p' : Plan} (hm : p.addCourse e = .ok p') :
    ∃ q', q.addCourse e = .ok q' ∧ Reordered p' q' := by
  obtain ⟨s, hs, hc, hi, rfl⟩ := addCourse_eq_ok hm
  rw [h.semester? hp] at hs
  have there : ∀ c ∈ q.entries, c ∈ p.entries := fun c hc => h.entries.mem_iff.2 hc
  exact ⟨_, addCourse_ok hs (fun c hq => hc c (there c hq)) (fun c hq => hi c (there c hq)),
    (h.setCourses _ _).touch⟩

theorem removeCourse (semester id : Json) : Echoes (p.removeCourse semester id) (q.removeCourse semester id) := by
  simp only [Plan.removeCourse, h.lookup hp]
  refine .bind fun found => ?_
  cases found with
  | none => exact echoes_pure _ h
  | some s =>
    dsimp only
    cases s.find? id with
    | none => exact echoes_pure _ h
    | some e => exact echoes_pure _ (h.setCourses _ _).touch

theorem moveCourse (id source target : Json) :
    Echoes (p.moveCourse id source target) (q.moveCourse id source target) := by
  simp only [Plan.moveCourse, h.semester hp]
  refine .bind fun s => .bind fun t => .bind fun e => ?_
  split
  · exact echoes_pure _ h
  · exact echoes_pure _ ((h.setCourses _ _).setCourses _ _).touch

theorem changeCourse (semester id : Json) (change : Entry → Except Fault Entry) :
    Echoes (p.changeCourse semester id change) (q.changeCourse semester id change) := by
  simp only [Plan.changeCourse, h.semester hp]
  exact .bind fun s => .bind fun c => .bind fun e => echoes_pure e (h.setCourses _ _).touch

omit hp in
theorem generate (start graduation current : Json) :
    Echoes (p.generate start graduation current) (q.generate start graduation current) := by
  have empty : p.semesters.isEmpty = q.semesters.isEmpty := by
    rw [Bool.eq_iff_iff, List.isEmpty_iff, List.isEmpty_iff]
    exact ⟨fun hn => List.perm_nil.1 (hn ▸ h.perm.symm), fun hn => List.perm_nil.1 (hn ▸ h.perm)⟩
  simp only [Plan.generate, empty]
  split
  · rw [h.ordered]
    exact .bind fun l => echoes_pure l h
  · -- the new semesters do not depend on the plan, and neither does their order
    have same : ∀ l, ({ p with semesters := l } : Plan).touch.ordered =
      ({ q with semesters := l } : Plan).touch.ordered :=
      fun l => ordered (of_eq rfl)
    simp only [same]
    exact .bind fun ts => .bind fun l => echoes_pure l (of_eq rfl)

omit hp in
theorem clearPlanned : Echoes p.clearPlanned q.clearPlanned := by
  simp only [Plan.clearPlanned, h.withStatus]
  refine .bind fun removed => ?_
  split
  · exact echoes_pure _ h
  · exact echoes_pure _ (h.withCourses unplanned).touch

end Reordered
end DegreePlan.Plan
