import DegreePlan.Proofs.Course.Average
import DegreePlan.Proofs.Sync.Orderly

/-!
# What a mutation raises

On a valid plan whose semesters name terms, a mutation that names ids which can be looked up raises nothing but
refusals of the plan and unacceptable values, after which the coordinator settles. Saving such a plan raises neither,
except that a number of it may be too long to be written.
-/

namespace DegreePlan

/-- A refusal of the plan or an unacceptable value, other than a number that is too long to be written. -/
def Fault.Expected (f : Fault) : Prop :=
  (f.isRefusal || f.isUnacceptable) = true ∧ f ≠ .value .integerTooLongToWrite

theorem Fault.expected_plan (f : PlanFault) : Expected (.plan f) := ⟨rfl, nofun⟩

theorem Status.raises_read (raw : Json) : Raises Fault.Expected (Status.read raw) := by
  intro f hf
  unfold Status.read at hf
  split at hf <;> cases hf
  exact ⟨rfl, nofun⟩

theorem Grade.raises_read (raw : Json) : Raises Fault.Expected (Grade.read raw) := by
  intro f hf
  unfold Grade.read at hf
  split at hf
  · cases hf
  · dsimp only at hf
    split at hf
    · cases hf
    · split at hf <;> cases hf
      exact ⟨rfl, nofun⟩

theorem Term.raises_readName (raw : Json) : Raises Fault.Expected (readName raw) := by
  intro f hf
  unfold readName at hf
  split at hf <;> cases hf
  exact ⟨rfl, nofun⟩

theorem TermName.raises_term (n : TermName) : Raises Fault.Expected n.term := by
  intro f hf
  unfold TermName.term at hf
  split at hf <;> cases hf
  exact ⟨rfl, nofun⟩

theorem Term.raises_range (start graduation : Json) : Raises Fault.Expected (range start graduation) := by
  refine raises_bind (raises_readName start) fun first _ => raises_bind (raises_readName graduation) fun last _ =>
    raises_bind last.raises_term fun last _ => raises_bind first.raises_term fun first _ => ?_
  split
  · intro f hf; cases hf; exact ⟨rfl, nofun⟩
  · exact raises_ok _

namespace Plan

variable {p : Plan}

theorem raises_ordered (p : Plan) : Raises Fault.Expected p.ordered := by
  intro f hf
  by_cases hd : ∀ s ∈ p.semesters, s.Dated
  · rw [ordered_of_dated hd] at hf; cases hf
  · rw [ordered_of_undated hd] at hf; cases hf; exact ⟨rfl, nofun⟩

theorem lookup_of_isKey {id : Json} (h : id.isKey = true) : p.lookup id = .ok (p.semester? id) :=
  lookup_eq_ok.2 ⟨h, rfl⟩

theorem raises_semester {id : Json} (h : id.isKey = true) : Raises Fault.Expected (p.semester id) := by
  intro f hf
  rw [semester, lookup_of_isKey h, ok_bind] at hf
  split at hf <;> cases hf
  exact Fault.expected_plan _

theorem raises_courseIn (s : Semester) (id : Json) : Raises Fault.Expected (courseIn s id) := by
  intro f hf
  unfold courseIn at hf
  split at hf <;> cases hf
  exact Fault.expected_plan _

/-- The semester that a course names is there, so its label can be given. -/
theorem raises_addCourse (h : p.Valid) {e : Entry} (hk : e.semester.isKey = true) :
    Raises Fault.Expected (p.addCourse e) := by
  refine raises_bind (raises_semester hk) fun s _ => ?_
  dsimp only
  split
  · exact raises_throw_bind (Fault.expected_plan _) _
  cases hc : p.findCode? e.code with
  | none =>
    dsimp only
    split
    · exact raises_throw (Fault.expected_plan _)
    · exact raises_ok _
  | some other =>
    obtain ⟨t, ht, hot⟩ := mem_entries.1 (List.mem_of_find?_eq_some hc)
    have held : other.semester.same (.int t.id) = true := h.held t ht other hot
    have key : other.semester.isKey = true := Json.isKey_of_same held rfl
    simp only [lookup_of_isKey key, ok_bind, semester?_of_mem h.ids ht held]
    exact raises_throw_bind (Fault.expected_plan _) _

theorem raises_removeCourse {semester : Json} (hk : semester.isKey = true) (id : Json) :
    Raises Fault.Expected (p.removeCourse semester id) := by
  rw [removeCourse, lookup_of_isKey hk, ok_bind]
  split
  · exact raises_ok _
  · split <;> exact raises_ok _

theorem raises_moveCourse {source target : Json} (hs : source.isKey = true) (ht : target.isKey = true) (id : Json) :
    Raises Fault.Expected (p.moveCourse id source target) := by
  refine raises_bind (raises_semester hs) fun s _ => raises_bind (raises_semester ht) fun t _ =>
    raises_bind (raises_courseIn s id) fun e _ => ?_
  split <;> exact raises_ok _

theorem raises_changeCourse {semester id : Json} {change : Entry → Except Fault Entry} (hk : semester.isKey = true)
    (hc : ∀ e, Raises Fault.Expected (change e)) : Raises Fault.Expected (p.changeCourse semester id change) :=
  raises_bind (raises_semester hk) fun s _ => raises_bind (raises_courseIn s id) fun e _ =>
    raises_bind (hc e) fun _ _ => raises_ok _

theorem raises_generate (start graduation current : Json) :
    Raises Fault.Expected (p.generate start graduation current) := by
  unfold generate
  split
  · exact raises_bind (raises_ordered p) fun _ _ => raises_ok _
  · exact raises_bind (Term.raises_range start graduation) fun _ _ =>
      raises_bind (raises_ordered _) fun _ _ => raises_ok _

theorem raises_clearPlanned (p : Plan) : Raises Fault.Expected p.clearPlanned := by
  refine raises_bind (raises_bind (raises_bind (raises_ordered p) fun _ _ => raises_ok _) fun _ _ =>
    raises_ok _) fun _ _ => ?_
  split <;> exact raises_ok _

end Plan

/-! ## Saving a plan -/

theorem Fault.OutOfRange.not_expected {f : Fault} (h : f.OutOfRange) : ¬f.Expected := by
  rw [OutOfRange] at h
  simp [Expected, isRefusal, isUnacceptable, h]

namespace Plan

variable {p : Plan} {P : Fault → Prop} (dated : ∀ s ∈ p.semesters, s.Dated)
  (long : P (.value .integerTooLongToWrite))

include dated long

theorem raises_filed (average : ∀ s ∈ p.semesters, Raises P s.average) : Raises P p.filed := by
  rw [filed, ordered_of_dated dated, ok_bind]
  refine raises_bind (raises_mapM fun s hs => ?_) fun _ _ => raises_ok _
  have record : Raises P s.toJson := raises_bind (average s (mem_sorted.1 hs)) fun _ _ => raises_ok _
  split
  · exact raises_throw_bind long _
  · exact raises_bind record fun _ _ => raises_ok _

/-- A save raises what an average raises, or tells that a number is too long. -/
theorem raises_saved (average : ∀ s ∈ p.semesters, Raises P s.average) (cache : Option Cache) :
    Raises P (Sync.Coordinator.saved p cache) := by
  cases cache with
  | none => exact raises_ok _
  | some cache =>
    refine raises_bind (raises_filed dated long average) fun semesters _ => ?_
    split
    · intro f hf
      cases hf
      exact long
    · exact raises_ok _

end Plan

/-- What a save raises is not expected. -/
theorem Plan.saved_not_expected {p : Plan} (dated : ∀ s ∈ p.semesters, s.Dated) (cache : Option Cache) :
    Raises (¬ Fault.Expected ·) (Sync.Coordinator.saved p cache) :=
  raises_saved dated (fun expected => expected.2 rfl)
    (fun _ _ f raised => (raises_gradePointAverage _ f raised).not_expected) cache

/-- With averages in range a save only fails because a number is too long. -/
theorem Plan.saved_too_long {p : Plan} (dated : ∀ s ∈ p.semesters, s.Dated) (averaged : Sync.Averaged p)
    (cache : Option Cache) : Raises (· = .value .integerTooLongToWrite) (Sync.Coordinator.saved p cache) := by
  refine raises_saved (P := (· = .value .integerTooLongToWrite)) dated rfl (fun s hs f raised => ?_) cache
  obtain ⟨x, hx⟩ := averaged s hs
  rw [hx] at raised
  cases raised

namespace Sync.Mutation

/-- The ids that a mutation names. -/
def ids : Mutation → List Json
  | add entry => [entry.id, entry.semester]
  | remove semester id => [semester, id]
  | move id source target => [id, source, target]
  | setStatus semester id _ _ => [semester, id]
  | setGrade semester id _ => [semester, id]
  | generate .. => []
  | clearPlanned => []

/-- All ids that a mutation names can be looked up. -/
def Keyed (m : Mutation) : Prop := ∀ v ∈ m.ids, v.isKey = true

instance : DecidablePred Keyed := fun m => inferInstanceAs (Decidable (∀ v ∈ m.ids, v.isKey = true))

theorem Keyed.plain {m : Mutation} (h : m.Keyed) : m.Plain := by
  cases m with
  | add entry => exact h entry.id (by simp [ids])
  | _ => trivial

/-- What a mutation raises on a valid plan. -/
theorem raises_apply {p : Plan} (h : p.Valid) {m : Mutation} (hm : m.Keyed) : Raises Fault.Expected (m.apply p) := by
  cases m with
  | add entry => exact raises_bind (Plan.raises_addCourse h (hm _ (by simp [ids]))) fun _ _ => raises_ok _
  | remove semester id =>
    refine raises_bind (Plan.raises_removeCourse (hm _ (by simp [ids])) id) fun r _ => ?_
    split <;> exact raises_ok _
  | move id source target =>
    exact raises_bind (Plan.raises_moveCourse (hm _ (by simp [ids])) (hm _ (by simp [ids])) id) fun _ _ => raises_ok _
  | setStatus semester id status grade =>
    refine raises_bind (Plan.raises_changeCourse (hm _ (by simp [ids])) fun e => ?_) fun _ _ => raises_ok _
    refine raises_bind (Status.raises_read status) fun _ _ => ?_
    split
    · exact raises_ok _
    · exact raises_bind (Grade.raises_read grade) fun _ _ => raises_ok _
  | setGrade semester id grade =>
    exact raises_bind (Plan.raises_changeCourse (hm _ (by simp [ids])) fun e =>
      raises_bind (Grade.raises_read grade) fun _ _ => raises_ok _) fun _ _ => raises_ok _
  | generate start graduation =>
    exact raises_bind (Plan.raises_ordered p) fun _ _ =>
      raises_bind (Plan.raises_generate start graduation .null) fun _ _ => raises_ok _
  | clearPlanned => exact raises_bind p.raises_clearPlanned fun _ _ => raises_ok _

end Sync.Mutation
end DegreePlan
