import Mathlib.Algebra.BigOperators.Ring.List
import Mathlib.Algebra.Order.BigOperators.Group.List
import Mathlib.Data.List.MinMax
import Mathlib.Tactic.Linarith
import DegreePlan.Proofs.Plan.Others

/-!
# Means

Without rounding, the average of a plan is the mean of the points of its completed courses with letter grades,
weighted by their credits. It is also the mean of the averages of its semesters, weighted by the credits that count
in each of them, so it lies between the smallest and the largest of them. Courses that do not count change no
average, rounded or not.
-/

namespace DegreePlan

/-! ## What counts -/

/-- The letter that a course brings into averages: that of its grade, if it is completed. -/
def Entry.letter? (e : Entry) : Option Letter := if e.status = .completed then e.grade.bind Grade.letter? else none

/-- The course counts in averages. -/
def Entry.counts (e : Entry) : Bool := e.letter?.isSome

/-- The credits of the courses that count. -/
def gradedCredits (es : List Entry) : Nat := totalCredits (es.filter Entry.counts)

/-- The points of the courses, weighted by their credits. -/
def quality (es : List Entry) : Rat := ((gradedRows es).map qualityPoints).sum

/-- The average of the courses without rounding. -/
def mean (es : List Entry) : Rat := meanPoints (gradedRows es)

theorem gradedRows_cons (e : Entry) (es : List Entry) :
    gradedRows (e :: es) = if e.status = .completed then (e.letter?, (e.credits : Int)) :: gradedRows es
    else gradedRows es := by
  by_cases done : e.status = .completed <;> simp [gradedRows, Entry.letter?, done]

theorem quality_cons (e : Entry) (es : List Entry) :
    quality (e :: es) = qualityPoints (e.letter?, e.credits) + quality es := by
  rw [quality, gradedRows_cons]
  split
  · rw [List.map_cons, List.sum_cons, quality]
  · next unfinished => rw [Entry.letter?, if_neg unfinished, quality, qualityPoints, Option.elim_none, zero_add]

theorem gradedCredits_cons (e : Entry) (es : List Entry) :
    gradedCredits (e :: es) = (if e.counts then e.credits else 0) + gradedCredits es := by
  rw [gradedCredits, List.filter_cons]
  split
  · exact Plan.totalCredits_cons ..
  · rw [Nat.zero_add, gradedCredits]

theorem sum_countedCredits (es : List Entry) : ((gradedRows es).map countedCredits).sum = gradedCredits es := by
  induction es with
  | nil => rfl
  | cons e es ih =>
    rw [gradedRows_cons, gradedCredits_cons, Nat.cast_add, ← ih]
    by_cases done : e.status = .completed
    · cases hl : e.letter? <;> simp [done, Entry.counts, hl, countedCredits]
    · simp [done, Entry.counts, Entry.letter?]

/-- The points of a course are at most four for each of its credits. -/
theorem quality_bounds (es : List Entry) : 0 ≤ quality es ∧ quality es ≤ 4 * gradedCredits es := by
  induction es with
  | nil => simp [quality, gradedRows]
  | cons e es ih =>
    obtain ⟨least, greatest⟩ := ih
    rw [quality_cons, gradedCredits_cons, Nat.cast_add, mul_add]
    cases hl : e.letter? with
    | none => simp [Entry.counts, hl, qualityPoints, least, greatest]
    | some l =>
      have points : (l.points : Rat) ≤ 4 := by cases l <;> norm_num [Letter.points]
      have credits : (0 : Rat) ≤ (e.credits : Int) := by positivity
      simp only [Entry.counts, hl, Option.isSome_some, if_true, qualityPoints, Option.elim_some]
      exact ⟨by positivity, add_le_add (mul_le_mul_of_nonneg_right points credits) greatest⟩

/-- The average times the credits that count is the sum of the weighted points. -/
theorem mean_mul_gradedCredits (es : List Entry) : mean es * gradedCredits es = quality es := by
  rw [mean, meanPoints, sum_countedCredits, ← quality]
  split
  · next some => exact div_mul_cancel₀ _ (by exact_mod_cast some.ne')
  · next none =>
    obtain ⟨least, greatest⟩ := quality_bounds es
    have none : (gradedCredits es : Rat) = 0 := by exact_mod_cast (by omega : gradedCredits es = 0)
    rw [none] at greatest ⊢
    linarith

theorem mean_of_none {es : List Entry} (none : gradedCredits es = 0) : mean es = 0 := by
  rw [mean, meanPoints, sum_countedCredits, none]
  rfl

theorem mean_perm {es fs : List Entry} (perm : es.Perm fs) : mean es = mean fs :=
  meanPoints_perm ((perm.filter _).map _)

/-- What bounds the points of each credit bounds the average. -/
theorem mean_within {es : List Entry} {a b : Rat} (some : 0 < gradedCredits es)
    (within : a * gradedCredits es ≤ quality es ∧ quality es ≤ b * gradedCredits es) :
    a ≤ mean es ∧ mean es ≤ b := by
  rw [← mean_mul_gradedCredits] at within
  have positive : (0 : Rat) < gradedCredits es := by exact_mod_cast some
  exact ⟨le_of_mul_le_mul_right within.1 positive, le_of_mul_le_mul_right within.2 positive⟩

theorem mean_bounds (es : List Entry) : 0 ≤ mean es ∧ mean es ≤ 4 := by
  rcases Nat.eq_zero_or_pos (gradedCredits es) with none | some
  · rw [mean_of_none none]
    norm_num
  · exact mean_within some (by rw [zero_mul]; exact quality_bounds es)

/-! ## Parts and the whole -/

theorem gradedCredits_append (es fs : List Entry) : gradedCredits (es ++ fs) = gradedCredits es + gradedCredits fs := by
  induction es with
  | nil => exact (Nat.zero_add _).symm
  | cons e es ih => rw [List.cons_append, gradedCredits_cons, gradedCredits_cons, ih, Nat.add_assoc]

section

variable {α : Type} (f : α → List Entry)

theorem quality_flatMap (l : List α) :
    quality (l.flatMap f) = (l.map fun x => mean (f x) * gradedCredits (f x)).sum := by
  induction l with
  | nil => rfl
  | cons x l ih =>
    rw [List.flatMap_cons, List.map_cons, List.sum_cons, ← ih, mean_mul_gradedCredits]
    simp only [quality, gradedRows, List.filter_append, List.map_append, List.sum_append]

theorem gradedCredits_flatMap (l : List α) :
    (gradedCredits (l.flatMap f) : Rat) = (l.map fun x => (gradedCredits (f x) : Rat)).sum := by
  induction l with
  | nil => rfl
  | cons x l ih => rw [List.flatMap_cons, gradedCredits_append, Nat.cast_add, ih, List.map_cons, List.sum_cons]

variable {f} {l : List α}

/-- What bounds the averages of the parts that count bounds the average of the whole. -/
theorem mean_flatMap_within {a b : Rat} (some : 0 < gradedCredits (l.flatMap f))
    (within : ∀ x ∈ l, 0 < gradedCredits (f x) → a ≤ mean (f x) ∧ mean (f x) ≤ b) :
    a ≤ mean (l.flatMap f) ∧ mean (l.flatMap f) ≤ b := by
  have each : ∀ x ∈ l, a * gradedCredits (f x) ≤ mean (f x) * gradedCredits (f x) ∧
      mean (f x) * gradedCredits (f x) ≤ b * gradedCredits (f x) := by
    intro x hx
    rcases Nat.eq_zero_or_pos (gradedCredits (f x)) with none | some
    · simp [none]
    · have credits : (0 : Rat) ≤ gradedCredits (f x) := Nat.cast_nonneg _
      obtain ⟨least, greatest⟩ := within x hx some
      exact ⟨mul_le_mul_of_nonneg_right least credits, mul_le_mul_of_nonneg_right greatest credits⟩
  refine mean_within some ?_
  rw [quality_flatMap, gradedCredits_flatMap, ← List.sum_map_mul_left, ← List.sum_map_mul_left]
  exact ⟨List.sum_le_sum fun x hx => (each x hx).1, List.sum_le_sum fun x hx => (each x hx).2⟩

/-- Some part counts if the whole does, and among the parts that count one has the smallest average and one the
largest. -/
theorem exists_extremes (some : 0 < gradedCredits (l.flatMap f)) :
    ∃ x ∈ l, ∃ y ∈ l, 0 < gradedCredits (f x) ∧ 0 < gradedCredits (f y) ∧
      ∀ z ∈ l, 0 < gradedCredits (f z) → mean (f x) ≤ mean (f z) ∧ mean (f z) ≤ mean (f y) := by
  let counting := l.filter fun x => decide (0 < gradedCredits (f x))
  have mem : ∀ x, x ∈ counting ↔ x ∈ l ∧ 0 < gradedCredits (f x) := fun x => by simp [counting]
  have there : counting ≠ [] := by
    intro none
    have zero : ∀ x ∈ l, gradedCredits (f x) = 0 := by simpa [counting] using none
    have : (gradedCredits (l.flatMap f) : Rat) = 0 := by
      rw [gradedCredits_flatMap, List.map_congr_left fun x hx => by rw [zero x hx]]
      simp
    exact some.ne' (by exact_mod_cast this)
  obtain ⟨x, hx⟩ := Option.ne_none_iff_exists'.1 (mt (List.argmin_eq_none (f := fun x => mean (f x))).1 there)
  obtain ⟨y, hy⟩ := Option.ne_none_iff_exists'.1 (mt (List.argmax_eq_none (f := fun x => mean (f x))).1 there)
  obtain ⟨hxl, hx0⟩ := (mem x).1 (List.argmin_mem hx)
  obtain ⟨hyl, hy0⟩ := (mem y).1 (List.argmax_mem hy)
  exact ⟨x, hxl, y, hyl, hx0, hy0, fun z hz hz0 =>
    ⟨List.le_of_mem_argmin (f := fun x => mean (f x)) ((mem z).2 ⟨hz, hz0⟩) hx,
      List.le_of_mem_argmax (f := fun x => mean (f x)) ((mem z).2 ⟨hz, hz0⟩) hy⟩⟩

end

/-! ## Courses that do not count -/

namespace Arithmetic

variable {α : Type} (A : Arithmetic α)

/-- Courses that do not count do not enter an average. -/
theorem average_counts (es : List Entry) :
    A.average (gradedRows (es.filter Entry.counts)) = A.average (gradedRows es) := by
  have tallied : ∀ tally, (gradedRows (es.filter Entry.counts)).foldlM A.count tally =
      (gradedRows es).foldlM A.count tally := by
    induction es with
    | nil => exact fun _ => rfl
    | cons e es ih =>
      intro tally
      rw [List.filter_cons, gradedRows_cons e es]
      cases hl : e.letter? with
      | none =>
        have out : e.counts = false := by rw [Entry.counts, hl]; rfl
        rw [out, if_neg Bool.false_ne_true, ih]
        split <;> rfl
      | some l =>
        have counts : e.counts = true := by rw [Entry.counts, hl]; rfl
        have done : e.status = .completed := by
          by_contra unfinished
          rw [Entry.letter?, if_neg unfinished] at hl
          cases hl
        rw [if_pos counts, gradedRows_cons, hl, if_pos done, if_pos done, List.foldlM_cons, List.foldlM_cons]
        exact bind_congr ih
  rw [average, average, tallied]

theorem average_others {id : Json} {es : List Entry}
    (uncounted : ∀ e ∈ es, e.id.same id = true → e.counts = false) :
    A.average (gradedRows (others id es)) = A.average (gradedRows es) := by
  have kept : (others id es).filter Entry.counts = es.filter Entry.counts := by
    rw [others, List.filter_filter]
    refine List.filter_congr fun e he => ?_
    have := uncounted e he
    grind
  rw [← average_counts, kept, average_counts]

end Arithmetic

/-- The average of the completed courses of a semester in some arithmetic. -/
def Semester.averageIn {α : Type} (A : Arithmetic α) (s : Semester) : Except Fault α :=
  A.average (gradedRows s.courses)

/-- The average of a semester is the one in floats. -/
theorem Semester.average_eq (s : Semester) : s.average = s.averageIn .floats := Arithmetic.gradePointAverage_eq _

namespace Plan

variable {p q : Plan} {id : Json}

/-- All courses but those of an id, by time. -/
theorem courses_rest (p : Plan) (id : Json) :
    ({ p with semesters := p.rest id } : Plan).courses = others id <$> p.courses := by
  have dated : (∀ s ∈ p.rest id, s.Dated) ↔ ∀ s ∈ p.semesters, s.Dated := List.forall_mem_map
  by_cases h : ∀ s ∈ p.semesters, s.Dated
  · have listed : ({ p with semesters := p.rest id } : Plan).ordered = .ok (sorted (p.rest id)) :=
      ordered_of_dated (dated.2 h)
    rw [courses, courses, listed, ordered_of_dated h, ok_bind, ok_bind, rest,
      sorted_map (g := (·.rest id)) fun _ _ => rfl, List.flatMap_map]
    exact congrArg Except.ok List.filter_flatMap.symm
  · have unlisted : ({ p with semesters := p.rest id } : Plan).ordered = .error (.value .seasonNotListed) :=
      ordered_of_undated (mt dated.1 h)
    rw [courses, courses, unlisted, ordered_of_undated h]
    rfl

section

variable {α : Type} (A : Arithmetic α)

theorem averageIn_rest (uncounted : ∀ e ∈ p.entries, e.id.same id = true → e.counts = false) :
    ({ p with semesters := p.rest id } : Plan).averageIn A = p.averageIn A := by
  rw [averageIn, averageIn, courses_rest]
  cases listed : p.courses with
  | error f => rfl
  | ok es => exact A.average_others fun e he => uncounted e ((courses_perm listed).mem_iff.1 he)

theorem averageIn_semester?_rest (uncounted : ∀ e ∈ p.entries, e.id.same id = true → e.counts = false)
    (v : Json) :
    (({ p with semesters := p.rest id } : Plan).semester? v).map (·.averageIn A) =
    (p.semester? v).map (·.averageIn A) := by
  rw [semester?, rest, List.find?_map, Option.map_map]
  change (p.semester? v).map _ = _
  cases found : p.semester? v with
  | none => rfl
  | some s =>
    exact congrArg some (A.average_others fun e he => uncounted e (mem_entries.2 ⟨s, (semester?_some found).1, he⟩))

end

/-- A change of a course that does not count, neither before nor after it, leaves all averages as they are. -/
theorem Valid.averages_kept (h : p.Valid) {c : Change} (named : c.names? = some id) (made : c.make p = .ok q)
    (before : ∀ e ∈ p.entries, e.id.same id = true → e.counts = false)
    (after : ∀ e ∈ q.entries, e.id.same id = true → e.counts = false) {α : Type} (A : Arithmetic α) :
    q.averageIn A = p.averageIn A ∧
      ∀ n : Int, (q.semester? (.int n)).map (·.averageIn A) = (p.semester? (.int n)).map (·.averageIn A) := by
  have same := h.rest_make named made
  refine ⟨?_, fun n => ?_⟩
  · rw [← averageIn_rest A before, ← averageIn_rest A after, same]
    rfl
  · rw [← averageIn_semester?_rest A before, ← averageIn_semester?_rest A after, same]
    rfl

/-! ## The average of a plan is a mean -/

/-- In a reachable plan whose semesters name terms, the averages of the plan and of its semesters are what is computed
in floats by the steps that give the averages without rounding in fractions. In fractions every average lies between
zero and four. The average of the plan is the mean of the averages of its semesters, weighted by the credits that count
in each. If any credits count, it lies between the smallest and the largest average of the semesters in which some
count, else it is zero. What is added, removed, moved or edited leaves all averages as they are, rounded or not, if it
counts neither before nor after. -/
theorem mean_of_semesters {owner : Option String} (h : Reachable owner p) (dated : ∀ s ∈ p.semesters, s.Dated) :
    (p.average = p.averageIn .floats ∧ ∀ s ∈ p.semesters, s.average = s.averageIn .floats) ∧
    ∃ gpa, p.averageIn .exact = .ok gpa ∧ (0 ≤ gpa ∧ gpa ≤ 4) ∧
      (∀ s ∈ p.semesters, s.averageIn .exact = .ok (mean s.courses) ∧ 0 ≤ mean s.courses ∧
        mean s.courses ≤ 4) ∧
      gpa * gradedCredits p.entries = (p.semesters.map fun s => mean s.courses * gradedCredits s.courses).sum ∧
      (0 < gradedCredits p.entries → ∃ least ∈ p.semesters, ∃ greatest ∈ p.semesters,
        0 < gradedCredits least.courses ∧ 0 < gradedCredits greatest.courses ∧
        (∀ s ∈ p.semesters, 0 < gradedCredits s.courses →
          mean least.courses ≤ mean s.courses ∧ mean s.courses ≤ mean greatest.courses) ∧
        mean least.courses ≤ gpa ∧ gpa ≤ mean greatest.courses) ∧
      (gradedCredits p.entries = 0 → gpa = 0) ∧
      ∀ (c : Change) (id : Json) (q : Plan), c.names? = some id → c.make p = .ok q →
        (∀ e ∈ p.entries, e.id.same id = true → e.counts = false) →
        (∀ e ∈ q.entries, e.id.same id = true → e.counts = false) →
        (q.average = p.average ∧
          ∀ n : Int, (q.semester? (.int n)).map (·.average) = (p.semester? (.int n)).map (·.average)) ∧
        ∀ (α : Type) (A : Arithmetic α), q.averageIn A = p.averageIn A ∧
          ∀ n : Int, (q.semester? (.int n)).map (·.averageIn A) = (p.semester? (.int n)).map (·.averageIn A) := by
  have exact : p.averageIn .exact = .ok (mean p.entries) := by
    have listed : p.courses = .ok ((sorted p.semesters).flatMap (·.courses)) := by
      rw [courses, ordered_of_dated dated]; rfl
    rw [averageIn, listed, ok_bind, Arithmetic.exact_average]
    exact congrArg Except.ok (mean_perm (courses_perm listed))
  refine ⟨⟨p.average_eq, fun s _ => s.average_eq⟩, mean p.entries, exact, mean_bounds _,
    fun s _ => ⟨Arithmetic.exact_average _, mean_bounds _⟩, ?weighted, ?between, mean_of_none,
    fun c id q named made before after => ⟨?floats, fun α A => h.valid.averages_kept named made before after A⟩⟩
  case weighted => rw [mean_mul_gradedCredits, entries, quality_flatMap]
  case between =>
    intro some
    obtain ⟨least, hl, greatest, hg, first, last, extreme⟩ := exists_extremes some
    exact ⟨least, hl, greatest, hg, first, last, extreme, mean_flatMap_within some extreme⟩
  case floats =>
    simp only [average_eq, Semester.average_eq]
    exact h.valid.averages_kept named made before after .floats

/-- An A for three credits and an F for one make an average between that of the fall and that of the spring. The course
that was withdrawn from may go: that changes no average, rounded or not. -/
theorem mean_of_semesters_withdrawn :
    let course (id : Int) (code : String) (credits : Nat) (semester : Int) (grade : Grade) : Entry :=
      { id := .int id, code := .str code, title := .str "", credits, status := .completed,
        semester := .int semester, grade }
    let changes : List Change := [.addSemester (.str "Fall") (.int 2024) (.int 18),
      .addSemester (.str "Spring") (.int 2025) (.int 18), .addCourse (course 1 "CS 1301" 3 202400 (.letter .a)),
      .addCourse (course 2 "CS 1331" 1 202501 (.letter .f)),
      .addCourse (course 3 "CS 1332" 4 202501 (.administrative .withdrawn))]
    let p := changes.foldl Plan.after ({ owner := some "user-a" } : Plan)
    (p.semesters.map fun s => (mean s.courses, gradedCredits s.courses)) = [(4, 3), (0, 1)] ∧
      (∃ gpa, p.averageIn .exact = .ok gpa ∧ gpa * 4 = 12) ∧
      ∃ q, Change.make p (.removeCourse (.int 202501) (.int 3)) = .ok q ∧ q.average = p.average := by
  intro course changes p
  have reached : Reachable (some "user-a") p := Reachable.empty.changes changes
  obtain ⟨-, gpa, exact, -, -, weighted, -, -, kept⟩ := mean_of_semesters reached (by decide +kernel)
  obtain ⟨q, removed, gone⟩ : ∃ q, Change.make p (.removeCourse (.int 202501) (.int 3)) = .ok q ∧
      ∀ e ∈ q.entries, e.id.same (.int 3) = true → e.counts = false := by decide +kernel
  have four : gradedCredits p.entries = 4 := by decide +kernel
  have twelve : (p.semesters.map fun s => mean s.courses * gradedCredits s.courses).sum = 12 := by decide +kernel
  rw [four, twelve] at weighted
  exact ⟨by decide +kernel, ⟨gpa, exact, weighted⟩, q, removed,
    (kept _ (.int 3) q rfl removed (by decide +kernel) gone).1.1⟩

end Plan

end DegreePlan
