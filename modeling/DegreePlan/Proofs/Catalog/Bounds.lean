import DegreePlan.Proofs.Catalog.Depths
import Mathlib.Data.Finset.Card

/-!
# Depths on any graph

The search for depths comes to one end on every graph, also where courses lead back to themselves. There a depth is no
length of a chain: a course on the path counts as zero, and depths that were found inside a cycle are used again outside
it. But the depths are kept in the order in which they are found, and each is at most one more than one that was found
before it. So no depth exceeds its place in that order.
-/

namespace DegreePlan
namespace CourseGraph

variable {g : CourseGraph} {path targets : List String} {c : String} {d m m' n : Nat} {known known' later : Depths}

/-! ## One end -/

/-- A search for depths comes to one end. -/
theorem Measures.unique (h : Measures g path targets m known m' known') (k : Measures g path targets m known n later) :
    m' = n ∧ known' = later := by
  induction h generalizing n later with
  | done => cases k; exact ⟨rfl, rfl⟩
  | known found _ ih =>
    cases k with
    | known found' next =>
      obtain rfl := Option.some.inj (found.symm.trans found')
      exact ih next
    | met new | descend new => cases found.symm.trans new
  | met new on _ ih =>
    cases k with
    | known found => cases new.symm.trans found
    | met _ _ next => exact ih next
    | descend _ off => exact absurd on off
  | descend new off _ _ ihb ihn =>
    cases k with
    | known found => cases new.symm.trans found
    | met _ on => exact absurd on off
    | descend _ _ below next =>
      obtain ⟨rfl, rfl⟩ := ihb below
      exact ihn next

/-! ## The order in which depths are found -/

/-- What is known stays known, and what is found comes behind it. -/
theorem Measures.extends (h : Measures g path targets m known m' known') : known <+: known' := by
  induction h with
  | done => exact List.prefix_rfl
  | known _ _ ih | met _ _ _ ih => exact ih
  | descend _ _ _ _ below next => exact below.trans ((List.prefix_append ..).trans next)

/-- No course on the path becomes known before the search leaves it. -/
theorem Measures.unknown (h : Measures g path targets m known m' known') (on : c ∈ path)
    (new : known.lookup c = none) : known'.lookup c = none := by
  induction h with
  | done => exact new
  | known _ _ ih | met _ _ _ ih => exact ih on new
  | @descend _ target _ _ _ _ _ _ _ _ off _ _ below next =>
    refine next on ?_
    have other : c ≠ target := fun same => off (same ▸ on)
    rw [List.lookup_append, below (List.mem_cons_of_mem _ on) new, lookup_cons_ite, if_neg other]
    rfl

theorem lookup_eq_none : known.lookup c = none ↔ c ∉ known.map (·.1) := by
  rw [← Option.not_isSome_iff_eq_none, isSome_lookup, List.contains_iff_mem]

/-- No course becomes known twice. -/
theorem Measures.once (h : Measures g path targets m known m' known') (once : (known.map (·.1)).Nodup) :
    (known'.map (·.1)).Nodup := by
  induction h with
  | done => exact once
  | known _ _ ih | met _ _ _ ih => exact ih once
  | @descend _ target _ _ _ _ _ _ _ new _ descent _ below next =>
    refine next ?_
    have unknown := lookup_eq_none.1 (descent.unknown (List.mem_cons_self ..) new)
    rw [List.map_append, List.map_singleton, ← List.concat_eq_append]
    exact (below once).concat unknown

/-- No depth exceeds its place, counted from one. -/
def Ranked (known : Depths) : Prop :=
  ∀ before row after, known = before ++ row :: after → row.2 ≤ before.length + 1

theorem Ranked.le_length (h : Ranked known) (found : known.lookup c = some d) : d ≤ known.length := by
  obtain ⟨before, after, rfl, -⟩ := List.lookup_eq_some_iff.1 found
  have place : d ≤ before.length + 1 := h before (c, d) after rfl
  rw [List.length_append, List.length_cons]
  omega

theorem Ranked.concat (h : Ranked known) (le : d ≤ known.length + 1) : Ranked (known ++ [(c, d)]) := by
  intro before row after split
  rcases List.eq_nil_or_concat after with rfl | ⟨rest, last, rfl⟩
  · obtain ⟨rfl, same⟩ := List.append_inj' split rfl
    obtain rfl := (List.cons.inj same).1
    exact le
  · rw [List.concat_eq_append, ← List.cons_append, ← List.append_assoc] at split
    exact h before row rest (List.append_inj' split rfl).1

theorem raised_le (g : CourseGraph) (code : String) (deepest : Nat) : g.raised code deepest ≤ deepest + 1 := by
  rw [raised]
  split
  · exact Nat.zero_le _
  · exact Nat.le_refl _

/-- The depths that are found are at most as great as their places, and so is the greatest of those that were asked
for. -/
theorem Measures.ranked (h : Measures g path targets m known m' known') (ranked : Ranked known)
    (le : m ≤ known.length) : Ranked known' ∧ m' ≤ known'.length := by
  induction h with
  | done => exact ⟨ranked, le⟩
  | known found _ ih => exact ih ranked (Nat.max_le.2 ⟨le, ranked.le_length found⟩)
  | met _ _ _ ih => exact ih ranked le
  | @descend _ target _ d _ _ below _ _ _ _ descent _ ihb next =>
    obtain ⟨inner, deepest⟩ := ihb ranked (Nat.zero_le _)
    have one : g.raised target d ≤ below.length + 1 := (raised_le g target d).trans (Nat.succ_le_succ deepest)
    refine next (inner.concat one) ?_
    rw [List.length_append, List.length_singleton]
    exact Nat.max_le.2 ⟨(le.trans descent.extends.length_le).trans (Nat.le_succ _), one⟩

/-! ## The courses of a graph -/

/-- The courses of the graph: those that are listed and those that they lead to. -/
def courses (g : CourseGraph) : Finset String := (g.nodes ++ g.nodes.flatMap g.next).toFinset

theorem mem_courses : c ∈ g.courses ↔ c ∈ g.nodes ∨ ∃ a, g.Leads a c := by
  rw [courses, List.mem_toFinset, List.mem_append, List.mem_flatMap]
  exact or_congr_right ⟨fun ⟨a, _, leads⟩ => ⟨a, leads⟩,
    fun ⟨a, leads⟩ => ⟨a, Leads.listed leads, leads⟩⟩

theorem once_depths (g : CourseGraph) : (g.depths.map (·.1)).Nodup := by
  obtain ⟨m, run⟩ := measures_depths g
  exact run.once List.nodup_nil

/-- There are as many depths as courses. -/
theorem length_depths (g : CourseGraph) : g.depths.length = g.courses.card := by
  have same : g.courses = (g.depths.map (·.1)).toFinset := by
    ext c
    rw [mem_courses, ← isSome_lookup_depths, isSome_lookup, List.contains_iff_mem, List.mem_toFinset]
  rw [same, List.toFinset_card_of_nodup (once_depths g), List.length_map]

/-- On every graph the search for depths comes to an end, with one depth for every listed course and every course that
one of them leads to, and for no others. No depth exceeds the number of these courses. -/
theorem depths_bounded (g : CourseGraph) :
    (∃ m, Measures g [] g.nodes 0 [] m g.depths) ∧
      (∀ m known, Measures g [] g.nodes 0 [] m known → known = g.depths) ∧
      (g.depths.map (·.1)).Nodup ∧ (∀ c, (g.depths.lookup c).isSome ↔ c ∈ g.courses) ∧
      ∀ c d, g.depths.lookup c = some d → d ≤ g.courses.card := by
  obtain ⟨m, run⟩ := measures_depths g
  refine ⟨⟨m, run⟩, fun n known other => (other.unique run).2, once_depths g, fun c => ?_, fun c d found => ?_⟩
  · rw [isSome_lookup_depths, mem_courses]
  · obtain ⟨ranked, -⟩ := run.ranked (fun before row after empty => by simp at empty) (Nat.zero_le _)
    exact length_depths g ▸ ranked.le_length found

/-- The number of courses is reached: around a cycle of two the course that is asked for first counts both. -/
example : depths [("CS 1301", ["CS 1331"]), ("CS 1331", ["CS 1301"])] = [("CS 1331", 1), ("CS 1301", 2)] := by
  decide

end CourseGraph
end DegreePlan
