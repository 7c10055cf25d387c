import DegreePlan.Proofs.Requirement.Wire
import DegreePlan.Requirement.Recommendation

/-!
# Progress never hurts

Whoever has completed more courses, none with a lower grade, and plans more still satisfies what was satisfied before
and is not blocked where nothing was missing. What was recommended before is recommended still, unless it is among
the courses that are completed or planned now.
-/

namespace DegreePlan

/-! ## More courses and better grades -/

namespace Mark

/-- The place of a recorded grade. One without points is the lowest, and no grade at all counts for the most. -/
def rank : Option Mark → Nat
  | some unpointed => 0
  | some (letter l) => l.points + 1
  | none => 6

/-- A completed course with this grade on record reaches a minimum. -/
def passes (mark : Option Mark) (minimum : Option Letter) : Bool := mark.all fun m => minimum.all m.meets

theorem passes_of_rank_le {mark mark' : Option Mark} {minimum : Option Letter} (better : rank mark ≤ rank mark')
    (h : passes mark minimum = true) : passes mark' minimum = true := by
  rcases minimum with _ | least
  · rcases mark' with _ | _ <;> rfl
  have most (l : Letter) : l.points ≤ 4 := by cases l <;> decide
  rcases mark' with _ | (earned' | _)
  · rfl
  · -- a letter is reached by a grade that is no better, so by a letter that is no better
    rcases mark with _ | (earned | _)
    · have := most earned'
      simp only [rank] at better
      omega
    · simp only [rank, passes, Option.all_some, meets, Letter.meets, decide_eq_true_eq] at better h ⊢
      omega
    · cases h
  · -- no grade is lower than one without points, and that one passes no minimum
    rcases mark with _ | (earned | _)
    · simp [rank] at better
    · simp [rank] at better
    · cases h

end Mark

namespace Completed

/-- Every completed course is completed still, with a grade as high or higher. -/
inductive Extends : Completed → Completed → Prop where
  | ungraded {codes codes' : List String} (kept : codes ⊆ codes') : Extends (ungraded codes) (ungraded codes')
  | graded {marks marks' : List (String × Option Mark)}
    (kept : ∀ code mark, marks.lookup code = some mark →
      ∃ mark', marks'.lookup code = some mark' ∧ Mark.rank mark ≤ Mark.rank mark') :
    Extends (graded marks) (graded marks')

variable {completed completed' : Completed}

theorem meets_graded (marks : List (String × Option Mark)) (code : String) (minimum : Option Letter) :
    (graded marks).meets code minimum = (marks.lookup code).any (Mark.passes · minimum) := by
  simp only [meets]
  rcases marks.lookup code with _ | _ | mark <;> rfl

theorem Extends.codes (h : completed.Extends completed') : completed.codes ⊆ completed'.codes := by
  cases h with
  | ungraded kept => exact kept
  | @graded marks marks' kept =>
    intro code hc
    obtain ⟨mark, found⟩ :=
      Option.isSome_iff_exists.1 ((isSome_lookup marks code).trans (List.contains_iff_mem.2 hc))
    obtain ⟨mark', found', -⟩ := kept code mark found
    refine List.contains_iff_mem.1 ((isSome_lookup marks' code).symm.trans ?_)
    rw [found']
    rfl

/-- A leaf that was met is met still. -/
theorem Extends.hard (h : completed.Extends completed') {code : String} {minimum : Option Letter}
    (met : completed.hard code minimum = true) : completed'.hard code minimum = true := by
  rw [← meets_eq] at met ⊢
  cases h with
  | ungraded kept =>
    simp only [meets, List.contains_iff_mem] at met ⊢
    exact kept met
  | graded kept =>
    rw [meets_graded, Option.any_eq_true] at met ⊢
    obtain ⟨mark, found, passes⟩ := met
    obtain ⟨mark', found', better⟩ := kept code mark found
    exact ⟨mark', found', Mark.passes_of_rank_le better passes⟩

end Completed

namespace Progress

/-- Nothing that was completed or planned is lost, and no grade is lowered. -/
structure Extends (p p' : Progress) : Prop where
  completed : p.completed.Extends p'.completed
  planned : p.planned ⊆ p'.planned
  others : ∀ v, Json.isIn v p.others = true → Json.isIn v p'.others = true

variable {p p' : Progress}

theorem Extends.lists (h : p.Extends p') {code : Json} (listed : p.lists code = true) : p'.lists code = true := by
  cases code with
  | str s =>
    simp only [Progress.lists, Bool.or_eq_true, List.contains_iff_mem] at listed ⊢
    exact listed.imp (fun hs => h.completed.codes hs) fun hs => h.planned hs
  | _ => exact h.others _ listed

/-- A verdict gets no worse. -/
theorem Extends.judge (h : p.Extends p') {tree : Option Requirement} (built : ∀ r ∈ tree, r.Built) :
    ((Requirement.judge tree p.completed p.planned).satisfied = true →
        (Requirement.judge tree p'.completed p'.planned).satisfied = true) ∧
      ((Requirement.judge tree p.completed p.planned).isBlocked = false →
        (Requirement.judge tree p'.completed p'.planned).isBlocked = false) := by
  cases tree with
  | none => exact ⟨fun _ => rfl, fun _ => rfl⟩
  | some r =>
    have built := built r rfl
    have before := built.decides p.completed p.planned
    have after := built.decides p'.completed p'.planned
    simp only [Requirement.judge, Verdict.isBlocked, Bool.not_eq_false', List.isEmpty_iff, before.missing,
      after.missing, before.satisfied, after.satisfied]
    refine ⟨built.holds_mono fun code minimum => h.completed.hard, built.holds_mono fun code minimum ok => ?_⟩
    simp only [Completed.ok, Bool.or_eq_true, List.contains_iff_mem] at ok ⊢
    exact ok.imp h.completed.hard fun hc => h.planned hc

end Progress

/-! ## Recommendations -/

namespace Offer

/-- A tree that an offer comes with was built. -/
def Sound (o : Offer) : Prop := ∀ tree, o.prerequisites = .inr tree → ∀ r ∈ tree, r.Built

variable {o : Offer} {p p' : Progress} {program : Option (List Json)} {keep : Bool}

theorem Sound.tree (h : o.Sound) {tree : Option Requirement} (read : o.tree.2 = .ok tree) :
    ∀ r ∈ tree, r.Built := by
  unfold Offer.tree at read
  split at read
  · exact fun r hr => (Requirement.tidy_of_ofWireOrNone read r hr).built
  · next t ht =>
    obtain rfl := Except.ok.inj read
    exact h t ht

theorem isCandidate_eq_ok {candidate : Bool} : o.isCandidate p program = .ok candidate ↔
    (o.code.isBlank = true ∧ candidate = false) ∨
      (o.code.isBlank = false ∧ o.code.checkKey = .ok () ∧
        candidate = (!p.lists o.code && program.all (Json.isIn o.code))) := by
  unfold isCandidate
  cases o.code.isBlank with
  | true => simp
  | false =>
    simp only [Bool.false_eq_true, if_false, false_and, false_or, true_and]
    refine map_eq_ok.trans ⟨?_, ?_⟩
    · rintro ⟨⟨⟩, key, made⟩
      exact ⟨key, made.symm⟩
    · rintro ⟨key, made⟩
      exact ⟨(), key, made.symm⟩

/-- An offer is decided on if it is no candidate, or if its prerequisites can be read. -/
theorem isRecommended_eq_ok : (o.isRecommended p program).2 = .ok keep ↔
    (o.isCandidate p program = .ok false ∧ keep = false) ∨
      (o.isCandidate p program = .ok true ∧ ∃ tree, o.tree.2 = .ok tree ∧
        keep = !(Requirement.judge tree p.completed p.planned).isBlocked) := by
  unfold isRecommended
  rcases o.isCandidate p program with fault | _ | _
  · simp
  · simp
  · simp only [Except.ok.injEq, Bool.true_eq_false, false_and, false_or, true_and]
    exact map_eq_ok.trans (exists_congr fun tree => and_congr_right' eq_comm)

/-- After progress an offer is decided on still. It is recommended if it was and is not listed now. -/
theorem isRecommended_extends (sound : o.Sound) (more : p.Extends p') (h : (o.isRecommended p program).2 = .ok keep) :
    ∃ keep', (o.isRecommended p' program).2 = .ok keep' ∧
      (keep = true → keep' = true ∨ p'.lists o.code = true) := by
  have skipped (candidate : o.isCandidate p' program = .ok false) : (o.isRecommended p' program).2 = .ok false :=
    isRecommended_eq_ok.2 (.inl ⟨candidate, rfl⟩)
  rcases isRecommended_eq_ok.1 h with ⟨candidate, rfl⟩ | ⟨candidate, tree, read, rfl⟩
  · refine ⟨false, skipped ?_, nofun⟩
    -- what was no candidate is blank, listed or out of the program, and stays so
    rcases isCandidate_eq_ok.1 candidate with ⟨blank, -⟩ | ⟨shown, key, out⟩
    · exact isCandidate_eq_ok.2 (.inl ⟨blank, rfl⟩)
    · refine isCandidate_eq_ok.2 (.inr ⟨shown, key, ?_⟩)
      rw [eq_comm, Bool.and_eq_false_iff, Bool.not_eq_false'] at out ⊢
      exact out.imp_left more.lists
  · rcases isCandidate_eq_ok.1 candidate with ⟨-, ⟨⟩⟩ | ⟨shown, key, inside⟩
    cases listed : p'.lists o.code with
    | true =>
      exact ⟨false, skipped (isCandidate_eq_ok.2 (.inr ⟨shown, key, by simp [listed]⟩)), fun _ => .inr rfl⟩
    | false =>
      have candidate' : o.isCandidate p' program = .ok true := by
        refine isCandidate_eq_ok.2 (.inr ⟨shown, key, ?_⟩)
        rw [listed]
        exact (Bool.and_eq_true_iff.1 inside.symm).2.symm
      refine ⟨_, isRecommended_eq_ok.2 (.inr ⟨candidate', tree, read, rfl⟩), fun kept => .inl ?_⟩
      simpa using (more.judge (sound.tree read)).2 (by simpa using kept)

end Offer

section Catalog

variable {α : Type} {offer : α → Except Fault Offer} {p p' : Progress} {program : Option (List Json)}
  {catalog : List α}

/-- What is picked from a catalog, entry by entry. -/
inductive Picks (offer : α → Except Fault Offer) (p : Progress) (program : Option (List Json)) :
    List α → List (Offer × α) → Prop where
  | nil : Picks offer p program [] []
  | cons {a : α} {as : List α} {o : Offer} {keep : Bool} {picked : List (Offer × α)} (ho : offer a = .ok o)
    (decided : (o.isRecommended p program).2 = .ok keep) (rest : Picks offer p program as picked) :
    Picks offer p program (a :: as) (if keep then (o, a) :: picked else picked)

theorem pickRecommended_eq_ok {picked : List (Offer × α)} :
    (pickRecommended offer p program catalog).2 = .ok picked ↔ Picks offer p program catalog picked := by
  induction catalog generalizing picked with
  | nil =>
    refine ⟨fun h => ?_, fun h => ?_⟩
    · cases h; exact .nil
    · cases h; rfl
  | cons a as ih =>
    constructor
    · intro h
      rw [pickRecommended] at h
      split at h
      · cases h
      · next o ho =>
        split at h
        · cases h
        · next log keep decided =>
          obtain ⟨later, rest, rfl⟩ := map_eq_ok.1 h
          exact .cons ho (congrArg Prod.snd decided) (ih.1 rest)
    · intro h
      cases h with
      | @cons _ _ o keep later ho decided rest =>
        have decided : o.isRecommended p program = ((o.isRecommended p program).1, .ok keep) := Prod.ext rfl decided
        rw [pickRecommended, ho]
        simp only
        rw [decided]
        exact map_eq_ok.2 ⟨later, ih.2 rest, rfl⟩

theorem Picks.unique {picked picked' : List (Offer × α)} (h : Picks offer p program catalog picked)
    (h' : Picks offer p program catalog picked') : picked = picked' :=
  Except.ok.inj ((pickRecommended_eq_ok.2 h).symm.trans (pickRecommended_eq_ok.2 h'))

theorem mem_kept {keep : Bool} {o : Offer} {a : α} {picked : List (Offer × α)} {x : Offer × α} :
    x ∈ (if keep then (o, a) :: picked else picked) ↔ x = (o, a) ∧ keep = true ∨ x ∈ picked := by
  cases keep <;> simp

/-- What is picked comes from the catalog and has a code. -/
theorem Picks.mem {picked : List (Offer × α)} (h : Picks offer p program catalog picked) {x : Offer × α}
    (hx : x ∈ picked) : x.2 ∈ catalog ∧ offer x.2 = .ok x.1 ∧ x.1.code.isBlank = false := by
  induction h with
  | nil => cases hx
  | @cons a as o keep picked ho decided _ ih =>
    rcases mem_kept.1 hx with ⟨rfl, rfl⟩ | hx
    · refine ⟨by simp, ho, ?_⟩
      rcases Offer.isRecommended_eq_ok.1 decided with ⟨-, ⟨⟩⟩ | ⟨candidate, -⟩
      rcases Offer.isCandidate_eq_ok.1 candidate with ⟨-, ⟨⟩⟩ | ⟨shown, -⟩
      exact shown
    · exact (ih hx).imp_left (List.mem_cons_of_mem a)

/-- After progress the same catalog is picked from still, and only what is listed now is left out. -/
theorem Picks.extends {picked : List (Offer × α)} (sound : ∀ a ∈ catalog, ∀ o, offer a = .ok o → o.Sound)
    (more : p.Extends p') (h : Picks offer p program catalog picked) :
    ∃ picked', Picks offer p' program catalog picked' ∧ ∀ x ∈ picked, x ∈ picked' ∨
      p'.lists x.1.code = true := by
  induction h with
  | nil => exact ⟨[], .nil, by simp⟩
  | @cons a as o keep picked ho decided _ ih =>
    obtain ⟨here, later⟩ := List.forall_mem_cons.1 sound
    obtain ⟨picked', rest, kept⟩ := ih later
    obtain ⟨keep', decided', stays⟩ := Offer.isRecommended_extends (here o ho) more decided
    refine ⟨_, .cons ho decided' rest, fun x hx => ?_⟩
    rcases mem_kept.1 hx with ⟨rfl, hk⟩ | hx
    · exact (stays hk).imp_left fun hk' => mem_kept.2 (.inl ⟨rfl, hk'⟩)
    · exact (kept x hx).imp_left fun hx => mem_kept.2 (.inr hx)

theorem recommend_eq_ok {recommended : List α} : (recommend offer p program catalog).2 = .ok recommended ↔
    ∃ picked, Picks offer p program catalog picked ∧
      ∃ sorted, Json.sortBy (·.1.code) picked = .ok sorted ∧ sorted.map (·.2) = recommended := by
  rw [recommend, bind_eq_ok]
  refine exists_congr fun picked => and_congr pickRecommended_eq_ok ?_
  simp

/-- The entries of a catalog that have a code have a text for it. -/
def Coded (offer : α → Except Fault Offer) (catalog : List α) : Prop :=
  ∀ a ∈ catalog, ∀ o, offer a = .ok o → o.code.isBlank = true ∨ ∃ code, o.code = .str code

theorem Picks.sorted {picked : List (Offer × α)} (coded : Coded offer catalog)
    (h : Picks offer p program catalog picked) : ∃ sorted, Json.sortBy (·.1.code) picked = .ok sorted := by
  have text {x : Offer × α} (hx : x ∈ picked) : ∃ code, x.1.code = .str code := by
    obtain ⟨listed, made, shown⟩ := h.mem hx
    rcases coded x.2 listed x.1 made with blank | text
    · rw [shown] at blank; cases blank
    · exact text
  refine Json.sortBy_ok_of_less fun x hx y hy => ?_
  obtain ⟨s, hs⟩ := text hx
  obtain ⟨t, ht⟩ := text hy
  rw [hs, ht]
  exact ⟨_, rfl⟩

end Catalog

/-- After progress a requirement that was satisfied is satisfied and one that was not blocked is not. Of the courses
    that were recommended only those that are completed or planned now are recommended no longer, and courses with
    codes that are texts can be recommended again. -/
theorem Progress.Extends.never_hurts {p p' : Progress} (more : p.Extends p') :
    (∀ tree : Option Requirement, (∀ r ∈ tree, r.Built) →
      ((Requirement.judge tree p.completed p.planned).satisfied = true →
        (Requirement.judge tree p'.completed p'.planned).satisfied = true) ∧
      ((Requirement.judge tree p.completed p.planned).isBlocked = false →
        (Requirement.judge tree p'.completed p'.planned).isBlocked = false)) ∧
    ∀ {α : Type} (offer : α → Except Fault Offer) (program : Option (List Json)) (catalog recommended : List α),
      (∀ a ∈ catalog, ∀ o, offer a = .ok o → o.Sound) →
        (recommend offer p program catalog).2 = .ok recommended →
          (∀ recommended', (recommend offer p' program catalog).2 = .ok recommended' →
          ∀ a ∈ recommended, a ∈ recommended' ∨ ∃ o, offer a = .ok o ∧ p'.lists o.code = true) ∧
        (Coded offer catalog → ∃ recommended', (recommend offer p' program catalog).2 = .ok recommended') := by
  refine ⟨fun tree built => more.judge built, fun {α} offer program catalog recommended sound before => ?_⟩
  obtain ⟨picked, picks, sorted, hs, rfl⟩ := recommend_eq_ok.1 before
  obtain ⟨picked', picks', kept⟩ := picks.extends sound more
  refine ⟨fun recommended' after a ha => ?_, fun coded => ?_⟩
  · obtain ⟨_, again, sorted', hs', rfl⟩ := recommend_eq_ok.1 after
    obtain rfl := picks'.unique again
    obtain ⟨x, hx, rfl⟩ := List.mem_map.1 ha
    have hx := (Json.perm_of_sortBy hs).subset hx
    exact (kept x hx).imp (fun hx => List.mem_map_of_mem ((Json.perm_of_sortBy hs').symm.subset hx))
      fun listed => ⟨x.1, (picks.mem hx).2.1, listed⟩
  · obtain ⟨sorted', hs'⟩ := picks'.sorted coded
    exact ⟨_, recommend_eq_ok.2 ⟨picked', picks', sorted', hs', rfl⟩⟩

/-- A better grade opens another course, and a course is completed that was planned. What the lower grade satisfied is
    satisfied, and the course that was recommended because of the plan is recommended still. -/
theorem Progress.Extends.never_hurts_sample :
    let p : Progress := { completed := .graded [("CS 1301", some (.letter .d))], planned := ["MATH 1551"] }
    let p' : Progress := {
      completed := .graded [("MATH 1551", some .unpointed), ("CS 1301", some (.letter .b))], planned := ["MATH 1551"] }
    let calculus : Offer := { code := .str "MATH 1552", prerequisites := .inr (some (.course "MATH 1551" none)) }
    let systems : Offer := { code := .str "CS 2110", prerequisites := .inr (some (.course "CS 1301" (some .c))) }
    let choice : Requirement := .any [.course "CS 2110" none, .course "CS 1301" (some .d)]
    p.Extends p' ∧ (choice.evaluate p.completed p.planned).satisfied = true ∧
      (choice.evaluate p'.completed p'.planned).satisfied = true ∧
      (recommend .ok p none [calculus, systems]).2 = .ok [calculus] ∧
      ∃ recommended, (recommend .ok p' none [calculus, systems]).2 = .ok recommended ∧
        calculus ∈ recommended := by
  intro p p' calculus systems choice
  have more : p.Extends p' := {
    completed := .graded fun code mark found => by
      rw [lookup_cons_ite] at found
      split at found
      · next hc => subst hc; cases found; exact ⟨_, rfl, by decide⟩
      · cases found
    planned := fun _ h => h
    others := fun _ h => h }
  have sound : ∀ a ∈ [calculus, systems], ∀ o, (.ok a : Except Fault Offer) = .ok o → o.Sound := by
    simp only [List.forall_mem_cons, Except.ok.injEq, forall_eq']
    refine ⟨?_, ?_, by simp⟩ <;> rintro _ ⟨⟩ r ⟨⟩ <;> exact Requirement.built_course.2 rfl
  have built : ∀ r ∈ some choice, r.Built := by simp +decide [choice]
  have coded : Coded .ok [calculus, systems] := by
    simp only [Coded, List.forall_mem_cons, Except.ok.injEq, forall_eq']
    exact ⟨.inr ⟨_, rfl⟩, .inr ⟨_, rfl⟩, by simp⟩
  have satisfied : (choice.evaluate p.completed p.planned).satisfied = true := by decide
  have before : (recommend .ok p none [calculus, systems]).2 = .ok [calculus] := rfl
  obtain ⟨kept, returns⟩ := more.never_hurts.2 .ok none [calculus, systems] [calculus] sound before
  obtain ⟨recommended, after⟩ := returns coded
  refine ⟨more, satisfied, (more.never_hurts.1 _ built).1 satisfied, before, recommended, after, ?_⟩
  rcases kept recommended after calculus (by simp) with still | ⟨o, ⟨⟩, listed⟩
  · exact still
  · exact absurd listed (by decide)

end DegreePlan
