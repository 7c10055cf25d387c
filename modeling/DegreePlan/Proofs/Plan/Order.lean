import Mathlib.Data.List.Nodup
import DegreePlan.Plan.Basic
import DegreePlan.Proofs.Term

/-!
# Semesters by time

A plan lists its semesters by time whenever each of them names a term. The list is a reordering of
the semesters, and it depends on nothing but their terms: other courses leave the order as it is, and
a plan that is set to such a list lists it again.
-/

namespace DegreePlan

namespace Semester

/-- The semester names a term. -/
def Dated (s : Semester) : Prop := s.term.term?.isSome

instance (s : Semester) : Decidable s.Dated := inferInstanceAs (Decidable (_ = true))

/-- The term that the semester names. -/
def time (s : Semester) : Term := s.term.term?.getD default

/-- Not later than another semester. -/
def notAfter (a b : Semester) : Bool := !b.time.before a.time

theorem notAfter_trans (a b c : Semester) (h : notAfter a b) (k : notAfter b c) : notAfter a c := by
  simp only [notAfter, Bool.not_eq_true'] at *
  exact Term.not_before_trans h k

theorem notAfter_total (a b : Semester) : notAfter a b || notAfter b a := Term.before_total _ _

theorem dated_ofTerm (t : Term) (active : Bool) : Dated { ofTerm t with isActive := active } := by
  simp [Dated, ofTerm, TermName.ofTerm, TermName.term?, Season.ofText_text]

theorem term_ok {s : Semester} (h : s.Dated) : s.term.term = .ok s.time := by
  obtain ⟨t, ht⟩ := Option.isSome_iff_exists.1 h
  simp [TermName.term, time, ht]

theorem term_error {s : Semester} (h : ¬ s.Dated) : s.term.term = .error (.value .seasonNotListed) := by
  simp only [Dated, Bool.not_eq_true, Option.isSome_eq_false_iff, Option.isNone_iff_eq_none] at h
  simp [TermName.term, h]

end Semester

namespace Plan

open Semester

/-- The list of semesters by time, for a plan all of whose semesters name terms. -/
def sorted (semesters : List Semester) : List Semester := semesters.mergeSort notAfter

theorem sorted_perm (l : List Semester) : (sorted l).Perm l := List.mergeSort_perm _ _

theorem mem_sorted {l : List Semester} {s : Semester} : s ∈ sorted l ↔ s ∈ l := (sorted_perm l).mem_iff

theorem pairwise_sorted (l : List Semester) : (sorted l).Pairwise (notAfter · ·) :=
  List.pairwise_mergeSort notAfter_trans notAfter_total l

theorem sorted_of_pairwise {l : List Semester} (h : l.Pairwise (notAfter · ·)) : sorted l = l :=
  List.mergeSort_of_pairwise h

/-- Sorting a sorted list changes nothing. -/
@[simp] theorem sorted_sorted (l : List Semester) : sorted (sorted l) = sorted l :=
  sorted_of_pairwise (pairwise_sorted l)

theorem sorted_map {g : Semester → Semester} {l : List Semester} (h : ∀ s ∈ l, (g s).time = s.time) :
    sorted (l.map g) = (sorted l).map g := by
  refine (List.map_mergeSort fun a ha b hb => ?_).symm
  simp only [notAfter, h a ha, h b hb]

/-- Two lists of the same semesters sort alike if no two semesters are of one time. -/
theorem sorted_eq_of_perm {l m : List Semester} (h : l.Perm m) (ht : (l.map (·.time)).Nodup) :
    sorted l = sorted m := by
  have hp : (sorted l).Perm (sorted m) := (sorted_perm l).trans (h.trans (sorted_perm m).symm)
  refine hp.eq_of_pairwise ?_ (pairwise_sorted l) (pairwise_sorted m)
  intro a b ha hb hab hba
  simp only [notAfter, Bool.not_eq_true'] at hab hba
  exact List.inj_on_of_nodup_map ht (mem_sorted.1 ha) (h.mem_iff.2 (mem_sorted.1 hb))
    (Term.eq_of_not_before hab hba)

/-! ## The order of a plan -/

theorem mapM_dated {l : List Semester} (h : ∀ s ∈ l, s.Dated) :
    (l.mapM fun s => do return (← s.term.term, s) : Except Fault _) = .ok (l.map fun s => (s.time, s)) :=
  mapM_ok fun s hs => by rw [term_ok (h s hs)]; rfl

theorem mapM_undated {l : List Semester} (h : ¬ ∀ s ∈ l, s.Dated) :
    (l.mapM fun s => do return (← s.term.term, s) : Except Fault (List (Term × Semester))) =
      .error (.value .seasonNotListed) := by
  induction l with
  | nil => simp at h
  | cons s l ih =>
    rw [List.mapM_cons]
    by_cases hs : s.Dated
    · rw [ih (fun hl => h (List.forall_mem_cons.2 ⟨hs, hl⟩)), term_ok hs]; rfl
    · rw [term_error hs]; rfl

theorem ordered_of_dated {p : Plan} (h : ∀ s ∈ p.semesters, s.Dated) : p.ordered = .ok (sorted p.semesters) := by
  simp only [ordered, mapM_dated h, ok_bind, pure_eq_ok]
  rw [← List.map_mergeSort (r := notAfter) (f := fun s : Semester => (s.time, s)) (fun a _ b _ => rfl),
    List.map_map]
  exact List.map_id _

theorem ordered_of_undated {p : Plan} (h : ¬ ∀ s ∈ p.semesters, s.Dated) :
    p.ordered = .error (.value .seasonNotListed) := by
  simp only [ordered, mapM_undated h, error_bind]

theorem ordered_eq_ok {p : Plan} {xs : List Semester} :
    p.ordered = .ok xs ↔ (∀ s ∈ p.semesters, s.Dated) ∧ sorted p.semesters = xs := by
  by_cases h : ∀ s ∈ p.semesters, s.Dated
  · rw [ordered_of_dated h, Except.ok.injEq]; exact (and_iff_right h).symm
  · rw [ordered_of_undated h]; simp [h]

theorem ordered_perm {p : Plan} {xs : List Semester} (h : p.ordered = .ok xs) : xs.Perm p.semesters :=
  (ordered_eq_ok.1 h).2 ▸ sorted_perm _

theorem snapshot_eq_ok {p : Plan} {s : Snapshot} :
    p.snapshot = .ok s ↔ ∃ xs, p.ordered = .ok xs ∧
    s = { owner := p.owner, version := p.version, semesters := xs } := by
  simp only [snapshot, bind_eq_ok, pure_eq_ok, eq_comm (a := s)]

/-- Going back changes nothing but the semesters and the version. -/
theorem restore_eq_ok {p q : Plan} {s : Snapshot} :
    p.restore s = .ok q ↔ s.owner = p.owner ∧ q = { p with semesters := s.semesters }.touch := by
  unfold restore
  by_cases ho : s.owner = p.owner
  · simp [ho, eq_comm (a := q)]
  · simp [ho]

end Plan
end DegreePlan
