import DegreePlan.Course.Gpa
import DegreePlan.Proofs.Fallible

/-!
# Averages that cannot be computed

An average of grades with whole credits fails only where a number of credits is beyond the range of floats.
-/

namespace DegreePlan

/-- A number beyond the range of its target. -/
def Fault.OutOfRange (f : Fault) : Prop := f.family = .outOfRange

theorem Credits.raises_toFloat (c : Credits) : Raises Fault.OutOfRange c.toFloat := by
  intro f hf
  unfold toFloat at hf
  split at hf
  · split at hf <;> cases hf
    rfl
  · cases hf

theorem Credits.raises_add (a b : Credits) : Raises Fault.OutOfRange (a.add b) := by
  unfold add
  split
  · exact raises_ok _
  · exact raises_bind a.raises_toFloat fun _ _ => raises_bind b.raises_toFloat fun _ _ => raises_ok _

theorem Tally.raises_count (t : Tally) (letter : Option Letter) (credits : Credits) :
    Raises Fault.OutOfRange (t.count letter credits) := by
  unfold count
  split
  · exact raises_ok t
  · exact raises_bind credits.raises_toFloat fun _ _ => raises_bind (Credits.raises_add _ _) fun _ _ => raises_ok _

theorem Tally.raises_average (t : Tally) : Raises Fault.OutOfRange t.average := by
  unfold average
  split
  · exact raises_bind t.credits.raises_toFloat fun _ _ => raises_ok _
  · exact raises_ok _

theorem raises_gradePointAverage (graded : List (Option Letter × Int)) :
    Raises Fault.OutOfRange (gradePointAverage graded) :=
  raises_bind (raises_foldlM (fun t row => t.raises_count row.1 _) _ _) fun t _ => t.raises_average

end DegreePlan
