import DegreePlan.Proofs.Course.Exact
import DegreePlan.Proofs.Json.Equality
import DegreePlan.Proofs.Lookup
import DegreePlan.Proofs.Plan.Intake
import DegreePlan.Proofs.Plan.Reachable
import DegreePlan.Proofs.Requirement.Evaluation

/-!
# Moves

Courses move from semester to semester, and some of the calls are refused. Nothing comes into the plan and nothing goes
out of it: the semesters stay, and so do the courses but for the semester that they name. What looks at all courses
together therefore finds after the moves what it found before.
-/

namespace DegreePlan

/-- The course without the semester that it names. -/
def Entry.unplaced (e : Entry) : Entry := { e with semester := .null }

/-- The semester without its courses. -/
def Semester.emptied (s : Semester) : Semester := { s with courses := [] }

/-- Evaluation looks at nothing but which leaves are met and which courses are planned. -/
theorem Requirement.evaluate_congr {completed completed' : Completed} {planned planned' : List String}
    (met : ∀ code minimum, completed.meets code minimum = completed'.meets code minimum)
    (listed : ∀ code, planned.contains code = planned'.contains code) :
    ∀ r : Requirement, r.evaluate completed planned = r.evaluate completed' planned'
  | course code minimum => by rw [evaluate, evaluate, evaluateCourse, evaluateCourse, met, listed]
  | all parts => by
    rw [evaluate_all, evaluate_all, List.map_congr_left fun r _ => evaluate_congr met listed r]
  | any parts => by
    rw [evaluate_any, evaluate_any, List.map_congr_left fun r _ => evaluate_congr met listed r]

namespace Plan

variable {p q r : Plan}

/-- Two plans have the same semesters and the same courses, which may stand in different semesters. -/
structure Conserves (p q : Plan) : Prop where
  semesters : q.semesters.map Semester.emptied = p.semesters.map Semester.emptied
  courses : (q.entries.map Entry.unplaced).Perm (p.entries.map Entry.unplaced)

namespace Conserves

theorem refl (p : Plan) : p.Conserves p := ⟨rfl, .refl _⟩

theorem trans (h : p.Conserves q) (h' : q.Conserves r) : p.Conserves r :=
  ⟨h'.semesters.trans h.semesters, h'.courses.trans h.courses⟩

theorem ownTerm (h : p.Conserves q) (terms : ∀ s ∈ p.semesters, s.OwnTerm) : ∀ s ∈ q.semesters, s.OwnTerm := by
  intro s hs
  have : s.emptied ∈ p.semesters.map Semester.emptied := h.semesters ▸ List.mem_map_of_mem hs
  obtain ⟨t, ht, same⟩ := List.mem_map.1 this
  obtain ⟨term, hid, hterm⟩ := terms t ht
  have sameId : t.id = s.id := congrArg (·.id) same
  have sameTerm : t.term = s.term := congrArg (·.term) same
  exact ⟨term, sameId ▸ hid, sameTerm ▸ hterm⟩

end Conserves

/-! ## One move -/

theorem emptied_setCourses (p : Plan) (id : Int) (cs : List Entry) :
    (p.setCourses id cs).semesters.map Semester.emptied = p.semesters.map Semester.emptied := by
  rw [setCourses_semesters, withCourses, List.map_map]
  rfl

theorem semester?_setCourses_other {n id : Int} (differ : n ≠ id) (cs : List Entry) :
    (p.setCourses id cs).semester? (.int n) = p.semester? (.int n) := by
  rw [semester?, setCourses_semesters, withCourses, List.find?_map]
  change (p.semester? (.int n)).map _ = _
  cases hs : p.semester? (.int n) with
  | none => rfl
  | some s =>
    have : s.id ≠ id := fun same => differ ((Json.same_int_int.1 (semester?_some hs).2).trans same)
    simp [courseSet, this]

/-- A move that is made conserves the plan. -/
theorem Valid.conserves (h : p.Valid) {id source target : Json} {e : Entry}
    (hq : p.moveCourse id source target = .ok (e, q)) : p.Conserves q := by
  obtain ⟨s, t, e, hs, ht, he, ⟨-, rfl⟩ | ⟨hst, rfl⟩⟩ := moveCourse_eq_ok hq
  · exact .refl _
  refine ⟨by rw [touch_semesters, emptied_setCourses, emptied_setCourses], ?_⟩
  rw [touch_entries]
  obtain ⟨rest, before, after⟩ := h.perm_move hs ht he hst
  exact (after.map Entry.unplaced).trans (before.symm.map Entry.unplaced)

/-- A move leaves every semester that it does not name as it is. -/
theorem semester?_moveCourse {id source target : Json} {e : Entry} {n : Int}
    (hq : p.moveCourse id source target = .ok (e, q)) (hs : source.same (.int n) = false)
    (ht : target.same (.int n) = false) : q.semester? (.int n) = p.semester? (.int n) := by
  obtain ⟨s, t, e, found, found', -, ⟨-, rfl⟩ | ⟨-, rfl⟩⟩ := moveCourse_eq_ok hq
  · rfl
  have other : ∀ {v : Json} {u : Semester}, v.same (.int n) = false → p.semester? v = some u → n ≠ u.id := by
    rintro v u hv hu rfl
    exact Bool.false_ne_true (hv.symm.trans (semester?_some hu).2)
  exact (semester?_setCourses_other (other ht found') _).trans (semester?_setCourses_other (other hs found) _)

/-! ## Calls one after the other -/

/-- A call that moves a course. -/
structure Move where
  id : Json
  source : Json
  target : Json

/-- The call as a change of the plan. -/
def Move.change (m : Move) : Change := .moveCourse m.id m.source m.target

/-- The call names the semester. -/
def Move.Names (m : Move) (n : Int) : Prop := m.source.same (.int n) = true ∨ m.target.same (.int n) = true

instance (m : Move) (n : Int) : Decidable (m.Names n) := inferInstanceAs (Decidable (_ ∨ _))

/-- The plan after all the calls. -/
def afterMoves (p : Plan) (moves : List Move) : Plan := (moves.map Move.change).foldl after p

/-- The calls that are not refused. -/
def made : Plan → List Move → List Move
  | _, [] => []
  | p, m :: moves =>
    match m.change.make p with
    | .ok q => m :: made q moves
    | .error _ => made p moves

theorem Move.make_eq_ok {m : Move} :
    m.change.make p = .ok q ↔ ∃ e, p.moveCourse m.id m.source m.target = .ok (e, q) := by
  simp [Move.change, Change.make, map_eq_ok]

theorem after_ok {c : Change} (h : c.make p = .ok q) : p.after c = q := by rw [after, h]

theorem after_error {c : Change} {f : Fault} (h : c.make p = .error f) : p.after c = p := by rw [after, h]

theorem Valid.changes (h : p.Valid) (cs : List Change) : (cs.foldl Plan.after p).Valid := by
  induction cs generalizing p with
  | nil => exact h
  | cons c cs ih => exact ih (h.after c)

theorem Valid.afterMoves (h : p.Valid) (moves : List Move) : (p.afterMoves moves).Valid := h.changes _

/-- Whatever the calls are, they conserve the plan. -/
theorem Valid.conserves_moves (h : p.Valid) (moves : List Move) : p.Conserves (p.afterMoves moves) := by
  induction moves generalizing p with
  | nil => exact .refl p
  | cons m moves ih =>
    have step : p.Conserves (p.after m.change) := by
      cases hm : m.change.make p with
      | error f => rw [after_error hm]; exact .refl p
      | ok q =>
        obtain ⟨e, moved⟩ := Move.make_eq_ok.1 hm
        rw [after_ok hm]
        exact h.conserves moved
    exact step.trans (ih (h.after m.change))

/-- A semester that no successful call names is as it was. -/
theorem semester?_afterMoves (moves : List Move) (n : Int) (unnamed : ∀ m ∈ p.made moves, ¬ m.Names n) :
    (p.afterMoves moves).semester? (.int n) = p.semester? (.int n) := by
  induction moves generalizing p with
  | nil => rfl
  | cons m moves ih =>
    change ((p.after m.change).afterMoves moves).semester? (.int n) = _
    cases hm : m.change.make p with
    | error f =>
      rw [made, hm] at unnamed
      rw [after_error hm]
      exact ih unnamed
    | ok q =>
      rw [made, hm] at unnamed
      obtain ⟨e, moved⟩ := Move.make_eq_ok.1 hm
      have ⟨source, target⟩ : m.source.same (.int n) = false ∧ m.target.same (.int n) = false := by
        simpa [Move.Names] using unnamed m List.mem_cons_self
      rw [after_ok hm, ih fun m hm => unnamed m (List.mem_cons_of_mem _ hm)]
      exact semester?_moveCourse moved source target

/-! ## What all courses together tell -/

/-- The sum of the credits of all semesters. -/
def total (p : Plan) : Nat := p.semesters.foldl (· + ·.total) 0

theorem foldl_credits (es : List Entry) (n : Nat) : es.foldl (· + ·.credits) n = n + totalCredits es := by
  induction es generalizing n with
  | nil => rfl
  | cons e es ih =>
    rw [totalCredits, List.foldl_cons, List.foldl_cons, ih, ih (0 + e.credits), Nat.zero_add, Nat.add_assoc]

theorem totalCredits_cons (e : Entry) (es : List Entry) : totalCredits (e :: es) = e.credits + totalCredits es := by
  rw [totalCredits, List.foldl_cons, foldl_credits, Nat.zero_add]

/-- The credits of all semesters are those of all courses. -/
theorem total_eq (p : Plan) : p.total = totalCredits p.entries := by
  rw [total, totalCredits, entries, List.foldl_flatMap]
  exact List.foldl_ext _ _ 0 fun n s _ => (foldl_credits s.courses n).symm

/-- Where every semester is of the term of its id, all courses can be listed. -/
theorem Valid.listed (h : p.Valid) (terms : ∀ s ∈ p.semesters, s.OwnTerm) :
    ∃ es, p.courses = .ok es ∧ es.Perm p.entries := by
  obtain ⟨es, hes⟩ := (inOrder_of_terms h.ids terms).courses
  exact ⟨es, hes, courses_perm hes⟩

/-- The completed courses with their grades. -/
def gradesOf (es : List Entry) : List (Json × Option Grade) :=
  (es.filter (·.status == .completed)).map fun e => (e.code, e.grade)

/-- The completed courses as evaluation takes them. -/
def marksOf (es : List Entry) : List (String × Option Mark) :=
  (gradesOf es).filterMap fun (code, grade) => code.text?.map fun s => (s, grade.map Mark.ofGrade)

/-- The codes of the courses that are not completed. -/
def pendingCodes (es : List Entry) : List Json := (es.filter (·.status != .completed)).map (·.code)

theorem forM_code {es : List Entry} {u : Unit} :
    (es.forM fun e => e.code.checkKey) = .ok u ↔ ∀ e ∈ es, e.code.isKey = true := by
  induction es with
  | nil => exact ⟨fun _ _ h => (List.not_mem_nil h).elim, fun _ => rfl⟩
  | cons e es ih =>
    change (e.code.checkKey >>= fun _ => es.forM fun e => e.code.checkKey) = .ok u ↔ _
    simp only [bind_eq_ok, Json.checkKey_eq_ok, ih, List.forall_mem_cons, exists_const]

/-- What a plan answers about a requirement, by the list of its courses. -/
theorem Valid.judge_eq_ok (h : p.Valid) {es : List Entry} (listed : p.courses = .ok es)
    {tree : Option Requirement} {v : Verdict} :
    p.judge tree = .ok v ↔ (∀ e ∈ es, e.code.isKey = true) ∧
      Requirement.judge tree (.graded (marksOf es)) ((Json.distinct (pendingCodes es)).filterMap Json.text?) = v := by
  have once : ((es.filter (·.status == .completed)).map (·.code.canonical)).Nodup :=
    (List.filter_sublist.map _).nodup (((courses_perm listed).map _).nodup_iff.2 h.codes)
  have recorded :
      (es.filter (·.status == .completed)).foldl (fun grades e => recordGrade e.code e.grade grades) [] =
      gradesOf es :=
    (foldl_recordGrade (by simpa using once)).trans (List.nil_append _)
  have split : (∀ e ∈ es, e.code.isKey = true) ↔
      (∀ e ∈ es.filter (·.status == .completed), e.code.isKey = true) ∧
      ∀ v ∈ pendingCodes es, v.isKey = true := by
    simp only [pendingCodes, List.forall_mem_map, List.mem_filter, beq_iff_eq, bne_iff_ne]
    exact ⟨fun h => ⟨fun e he => h e he.1, fun e he => h e he.1⟩, fun ⟨h, h'⟩ e he =>
      if done : e.status = .completed then h e ⟨he, done⟩ else h' e ⟨he, done⟩⟩
  simp only [judge, completed, completedGrades, withStatus, planned, plannedCodes, listed, ok_bind,
    pure_bind, bind_assoc, bind_eq_ok, pure_eq_ok, forM_code, Json.forM_checkKey, recorded, split, pendingCodes]
  tauto

/-! ## What does not depend on the semesters -/

theorem totalCredits_unplaced (es : List Entry) : totalCredits (es.map Entry.unplaced) = totalCredits es := by
  rw [totalCredits, List.foldl_map]
  rfl

theorem gradesOf_unplaced (es : List Entry) : gradesOf (es.map Entry.unplaced) = gradesOf es := by
  rw [gradesOf, List.filter_map, List.map_map]
  rfl

theorem pendingCodes_unplaced (es : List Entry) : pendingCodes (es.map Entry.unplaced) = pendingCodes es := by
  rw [pendingCodes, List.filter_map, List.map_map]
  rfl

theorem gradedRows_unplaced (es : List Entry) : gradedRows (es.map Entry.unplaced) = gradedRows es := by
  rw [gradedRows, List.filter_map, List.map_map]
  rfl

theorem countP_unplaced (es : List Entry) (s : Status) :
    (es.map Entry.unplaced).countP (·.status == s) = es.countP (·.status == s) := List.countP_map

/-- Codes that differ are recorded under texts that differ. -/
theorem nodup_marksOf {es : List Entry} (once : (es.map (·.code.canonical)).Nodup) :
    ((marksOf es).map (·.1)).Nodup := by
  have codes : (marksOf es).map (·.1) =
      ((es.filter (·.status == .completed)).map (·.code.canonical)).filterMap Json.text? := by
    simp only [marksOf, gradesOf, List.map_filterMap, List.filterMap_map]
    refine List.filterMap_congr fun e _ => ?_
    simp only [Function.comp_apply, Json.text?_canonical]
    cases e.code.text? <;> rfl
  rw [codes]
  refine List.Nodup.filterMap (fun v w s hv hw => ?_) ((List.filter_sublist.map _).nodup once)
  rw [Json.text?_eq_some.1 hv, Json.text?_eq_some.1 hw]

theorem mem_texts {vs : List Json} {s : String} :
    s ∈ (Json.distinct vs).filterMap Json.text? ↔ .str s ∈ vs.map Json.canonical := by
  have listed := Json.isIn_distinct (.str s) vs
  rw [Bool.eq_iff_iff, Json.isIn_iff, Json.isIn_iff, Json.canonical_str] at listed
  rw [List.mem_filterMap, ← listed, List.mem_map]
  constructor
  · rintro ⟨v, hv, text⟩
    exact ⟨v, hv, by rw [Json.text?_eq_some.1 text, Json.canonical_str]⟩
  · rintro ⟨v, hv, same⟩
    exact ⟨v, hv, Json.text?_eq_some.2 (Json.canonical_eq_str same)⟩

section

variable {es es' : List Entry} (perm : (es'.map Entry.unplaced).Perm (es.map Entry.unplaced))
include perm

theorem totalCredits_of_perm : totalCredits es' = totalCredits es := by
  rw [← totalCredits_unplaced es', ← totalCredits_unplaced es]
  exact perm.foldl_eq' (fun e _ f _ n => Nat.add_right_comm n e.credits f.credits) 0

theorem meanPoints_of_perm : meanPoints (gradedRows es') = meanPoints (gradedRows es) := by
  rw [← gradedRows_unplaced es', ← gradedRows_unplaced es]
  exact meanPoints_perm ((perm.filter _).map _)

theorem countP_of_perm (s : Status) : es'.countP (·.status == s) = es.countP (·.status == s) := by
  rw [← countP_unplaced es', ← countP_unplaced es, perm.countP_eq]

/-- A verdict depends on the marks and the planned codes, not on their order. -/
theorem judge_of_perm (once : (es.map (·.code.canonical)).Nodup) (tree : Option Requirement) :
    Requirement.judge tree (.graded (marksOf es')) ((Json.distinct (pendingCodes es')).filterMap Json.text?) =
      Requirement.judge tree (.graded (marksOf es)) ((Json.distinct (pendingCodes es)).filterMap Json.text?) := by
  have grades : (gradesOf es').Perm (gradesOf es) := by
    rw [← gradesOf_unplaced es', ← gradesOf_unplaced es]
    exact (perm.filter _).map _
  have pending : (pendingCodes es').Perm (pendingCodes es) := by
    rw [← pendingCodes_unplaced es', ← pendingCodes_unplaced es]
    exact (perm.filter _).map _
  cases tree with
  | none => rfl
  | some r =>
    have marks : (marksOf es').Perm (marksOf es) := grades.filterMap _
    refine Requirement.evaluate_congr (fun code minimum => ?_) (fun code => ?_) r
    · rw [Completed.meets, Completed.meets, lookup_perm marks (nodup_marksOf once) code]
    · rw [Bool.eq_iff_iff, List.contains_iff_mem, List.contains_iff_mem, mem_texts, mem_texts, (pending.map _).mem_iff]

end

/-! ## Moves conserve the plan -/

/-- Where no code and no id stands twice and every semester is of the term of its id, calls that move courses,
refused or not, neither drop nor add a course nor change anything of one but its semester. They keep the semesters,
and they leave those that no successful call names as they are. So they change no sum of credits, no average without
rounding, no count of courses, and no answer about a requirement. -/
theorem moves_conserve (h : p.Valid) (terms : ∀ s ∈ p.semesters, s.OwnTerm) (moves : List Move) :
    ((p.afterMoves moves).entries.map Entry.unplaced).Perm (p.entries.map Entry.unplaced) ∧
    (p.afterMoves moves).semesters.map Semester.emptied = p.semesters.map Semester.emptied ∧
    (∀ n, (∀ m ∈ p.made moves, ¬ m.Names n) →
      (p.afterMoves moves).semester? (.int n) = p.semester? (.int n)) ∧
    (p.afterMoves moves).total = p.total ∧
    (∃ x, p.averageIn .exact = .ok x ∧ (p.afterMoves moves).averageIn .exact = .ok x) ∧
    (∃ s, p.stats = .ok s ∧ (p.afterMoves moves).stats = .ok s) ∧
    ∀ tree v, (p.afterMoves moves).judge tree = .ok v ↔ p.judge tree = .ok v := by
  have conserves := h.conserves_moves moves
  have h' := h.afterMoves moves
  obtain ⟨es, listed, all⟩ := h.listed terms
  obtain ⟨es', listed', all'⟩ := h'.listed (conserves.ownTerm terms)
  have perm : (es'.map Entry.unplaced).Perm (es.map Entry.unplaced) :=
    (all'.map _).trans (conserves.courses.trans (all.map _).symm)
  refine ⟨conserves.courses, conserves.semesters, semester?_afterMoves moves, ?totals, ?average, ?stats,
    fun tree v => ?judge⟩
  case totals => rw [total_eq, total_eq, totalCredits_of_perm conserves.courses]
  case average =>
    refine ⟨meanPoints (gradedRows es), ?_, ?_⟩
    · rw [averageIn, listed, ok_bind, Arithmetic.exact_average]
    · rw [averageIn, listed', ok_bind, Arithmetic.exact_average, meanPoints_of_perm perm]
  case stats =>
    have count := countP_of_perm perm
    have length : es'.length = es.length := by simpa using perm.length_eq
    exact ⟨_, by rw [stats, listed]; rfl, by rw [stats, listed']; simp only [ok_bind, count, length]; rfl⟩
  case judge =>
    have keys : (∀ e ∈ es', e.code.isKey = true) ↔ ∀ e ∈ es, e.code.isKey = true := by
      have unplaced (es : List Entry) :
          (∀ e ∈ es, e.code.isKey = true) ↔ ∀ e ∈ es.map Entry.unplaced, e.code.isKey = true := by
        rw [List.forall_mem_map]
        rfl
      rw [unplaced, unplaced es]
      exact ⟨fun h e he => h e (perm.mem_iff.2 he), fun h e he => h e (perm.mem_iff.1 he)⟩
    rw [h'.judge_eq_ok listed', h.judge_eq_ok listed, keys, judge_of_perm perm ((all.map _).nodup_iff.2 h.codes)]

/-- A completed course goes from the fall to the spring. A call to take it from the fall once more, one to an unknown
semester and one within the fall change nothing. The summer is never named. -/
theorem moves_conserve_calls :
    let e : Entry := { id := .int 1, code := .str "CS 1301", title := .str "", credits := 3, status := .completed
                       semester := .int 202400, grade := some (.letter .b) }
    let f : Entry := { id := .int 2, code := .str "CS 1331", title := .str "", credits := 4, status := .planned
                       semester := .int 202400, grade := none }
    let p : Plan :=
      { owner := some "user-a", semesters := [{ Semester.ofTerm ⟨.fall, 2024⟩ with courses := [e, f] },
      .ofTerm ⟨.spring, 2024⟩, .ofTerm ⟨.summer, 2024⟩] }
    let moves : List Move := [⟨.int 1, .int 202400, .int 202401⟩, ⟨.int 1, .int 202400, .int 202401⟩,
      ⟨.int 2, .int 202400, .int 202500⟩, ⟨.int 2, .int 202400, .real 202400⟩]
    let tree : Requirement := .course "CS 1301" (some .c)
    (p.made moves).length = 2 ∧ (p.afterMoves moves).semesters.map (·.courses.length) = [1, 1, 0] ∧
      (p.afterMoves moves).semester? (.int 202402) = p.semester? (.int 202402) ∧
      ∀ v, (p.afterMoves moves).judge (some tree) = .ok v ↔ p.judge (some tree) = .ok v := by
  intro e f p moves tree
  have valid : p.Valid := ⟨by decide +kernel, by decide +kernel, by decide +kernel, by decide +kernel⟩
  have terms : ∀ s ∈ p.semesters, s.OwnTerm := by
    simp only [p, List.forall_mem_cons, List.not_mem_nil, false_implies, implies_true, and_true]
    exact ⟨⟨_, rfl, rfl⟩, ⟨_, rfl, rfl⟩, ⟨_, rfl, rfl⟩⟩
  have unnamed : ∀ m ∈ p.made moves, ¬ m.Names 202402 := by decide +kernel
  obtain ⟨-, -, kept, -, -, -, judged⟩ := moves_conserve valid terms moves
  exact ⟨by decide +kernel, by decide +kernel, kept 202402 unnamed, judged (some tree)⟩

end Plan
end DegreePlan
