import Mathlib.Logic.Relation
import DegreePlan.Proofs.Requirement.Report
import DegreePlan.Proofs.Requirement.Wire

/-!
# Grouping does not matter

A group of one part is judged like the part, and a group within a group of the same kind like its parts in its place.
Merging the lists of a group is associative, and so is choosing the best part of a choice, ties included. A catalog
may therefore spell every group out or leave the idle ones away.
-/

namespace DegreePlan

/-! ## Groups of verdicts -/

namespace Verdict

/-- A satisfied verdict names no course. -/
def Clean (v : Verdict) : Prop := v.satisfied = true → v.missing = [] ∧ v.softVia = []

theorem Clean.eq {v : Verdict} (clean : v.Clean) (satisfied : v.satisfied = true) : v = { satisfied := true } := by
  obtain ⟨missing, softVia⟩ := clean satisfied
  cases v
  simp_all

theorem Clean.any {vs : List Verdict} (some : vs ≠ []) (clean : ∀ v ∈ vs, v.Clean) : (Verdict.any vs).Clean := by
  rcases any_cases some with ⟨-, he⟩ | ⟨-, taken, -⟩
  · rw [he]; exact fun _ => ⟨rfl, rfl⟩
  · exact clean _ taken

theorem all_one {v : Verdict} (missing : v.missing.Nodup) (softVia : v.softVia.Nodup) : all [v] = v := by
  simp [all, Course.distinct_of_nodup missing, Course.distinct_of_nodup softVia]

theorem all_splice (before inner after : List Verdict) :
    all (before ++ all inner :: after) = all (before ++ inner ++ after) := by
  have merge (a b c : List String) :
      Course.distinct (a ++ (Course.distinct b ++ c)) = Course.distinct (a ++ (b ++ c)) := by
    rw [← Course.distinct_append_distinct, Course.distinct_distinct_append, Course.distinct_append_distinct]
  simp [all, merge]

/-- How good a verdict is for a choice: a satisfied one is the best, then the fewest missing courses count. -/
def cost (v : Verdict) : Nat := if v.satisfied then 0 else v.missing.length + 1

/-- The better of two verdicts, the first if they are as good. -/
def pick (v w : Verdict) : Verdict := if w.cost < v.cost then w else v

theorem pick_assoc (u v w : Verdict) : (u.pick v).pick w = u.pick (v.pick w) := by
  unfold pick
  split_ifs <;> first | rfl | omega

instance : Std.Associative pick := ⟨pick_assoc⟩

theorem Clean.pick {v w : Verdict} (hv : v.Clean) (hw : w.Clean) : (v.pick w).Clean := by
  unfold Verdict.pick
  split
  · exact hw
  · exact hv

theorem any_one {v : Verdict} (clean : v.Clean) : any [v] = v := by
  rcases any_cases (show [v] ≠ [] by simp) with ⟨⟨w, hw, satisfied⟩, he⟩ | ⟨-, hm, -⟩
  · obtain rfl := List.mem_singleton.1 hw
    rw [he, clean.eq satisfied]
  · exact List.mem_singleton.1 hm

theorem satisfied_pick (v w : Verdict) : (v.pick w).satisfied = (v.satisfied || w.satisfied) := by
  unfold pick cost
  cases hv : v.satisfied <;> cases hw : w.satisfied <;> simp [hv, hw, apply_ite Verdict.satisfied]

theorem isOpen_eq_false {v : Verdict} : v.isOpen = false ↔ 0 < v.missing.length := by
  rw [isOpen, List.isEmpty_eq_false_iff, List.length_pos_iff]

/-- A choice begins by choosing between its first two parts. -/
theorem any_cons_cons (v w : Verdict) (vs : List Verdict) : any (v :: w :: vs) = any (v.pick w :: vs) := by
  have same : (v :: w :: vs).any (·.satisfied) = (v.pick w :: vs).any (·.satisfied) := by
    simp [satisfied_pick, Bool.or_assoc]
  unfold any
  rw [same]
  split
  · rfl
  next unsatisfied =>
  simp only [List.any_cons, satisfied_pick, Bool.or_eq_true, not_or, Bool.not_eq_true] at unsatisfied
  obtain ⟨⟨hv, hw⟩, -⟩ := unsatisfied
  by_cases fewer : w.missing.length < v.missing.length
  · have shut : ¬ v.isOpen = true := by
      rw [Bool.not_eq_true, isOpen_eq_false]
      omega
    have picked : v.pick w = w := by simp [pick, cost, hv, hw, fewer]
    rw [picked, List.find?_cons_of_neg shut]
    cases (w :: vs).find? (·.isOpen) with
    | some u => rfl
    | none => simp only [fewestMissing, if_pos fewer]
  · have picked : v.pick w = v := by simp [pick, cost, hv, hw, fewer]
    rw [picked]
    by_cases open_ : v.isOpen = true
    · rw [List.find?_cons_of_pos open_, List.find?_cons_of_pos open_]
    · have shut : ¬ w.isOpen = true := by
        rw [Bool.not_eq_true, isOpen_eq_false] at open_ ⊢
        omega
      rw [List.find?_cons_of_neg open_, List.find?_cons_of_neg shut, List.find?_cons_of_neg open_]
      cases vs.find? (·.isOpen) with
      | some u => rfl
      | none => simp only [fewestMissing, if_neg fewer]

theorem any_eq_foldl {v : Verdict} {vs : List Verdict} (clean : ∀ w ∈ v :: vs, w.Clean) :
    any (v :: vs) = vs.foldl pick v := by
  induction vs generalizing v with
  | nil => exact any_one (clean v (by simp))
  | cons w vs ih =>
    simp only [List.forall_mem_cons] at clean
    obtain ⟨hv, hw, hvs⟩ := clean
    rw [any_cons_cons, ih (List.forall_mem_cons.2 ⟨hv.pick hw, hvs⟩), List.foldl_cons]

/-- A choice within a choice offers its parts in its place. -/
theorem any_splice {before inner after : List Verdict} (some : inner ≠ [])
    (clean : ∀ v ∈ before ++ inner ++ after, v.Clean) :
    any (before ++ any inner :: after) = any (before ++ inner ++ after) := by
  obtain ⟨⟨hb, hi⟩, ha⟩ := (List.forall_mem_append.1 clean).imp_left List.forall_mem_append.1
  have outer : ∀ v ∈ before ++ any inner :: after, v.Clean :=
    List.forall_mem_append.2 ⟨hb, List.forall_mem_cons.2 ⟨.any some hi, ha⟩⟩
  obtain ⟨v, vs, rfl⟩ := List.exists_cons_of_ne_nil some
  -- both choices are the same picks, bracketed in another way
  cases before with
  | nil =>
    simp only [List.nil_append, List.cons_append] at outer clean ⊢
    rw [any_eq_foldl outer, any_eq_foldl hi, any_eq_foldl clean, List.foldl_append]
  | cons u us =>
    simp only [List.cons_append] at outer clean ⊢
    rw [any_eq_foldl outer, any_eq_foldl clean, any_eq_foldl hi]
    simp only [List.foldl_append, List.foldl_cons, List.foldl_assoc]

/-- A group of verdicts by its connective. -/
def group (c : Connective) (vs : List Verdict) : Verdict :=
  match c with
  | .all => all vs
  | .any => any vs

end Verdict

/-! ## Changes of the grouping -/

namespace Requirement

/-- One change of the grouping, anywhere in the tree. A group of one part gives way to the part, or a group within a
    group of the same kind gives way to its parts. -/
inductive Regroups : Requirement → Requirement → Prop where
  | one (c : Connective) (p : Requirement) : Regroups (group c [p]) p
  | splice (c : Connective) (before : List Requirement) {inner : List Requirement} (after : List Requirement)
    (some : inner ≠ []) : Regroups (group c (before ++ group c inner :: after)) (group c (before ++ inner ++ after))
  | part (c : Connective) (before : List Requirement) {p q : Requirement} (after : List Requirement)
    (change : Regroups p q) : Regroups (group c (before ++ p :: after)) (group c (before ++ q :: after))

variable {r r' : Requirement}

theorem evaluate_group (c : Connective) (parts : List Requirement) (completed : Completed) (planned : List String) :
    (group c parts).evaluate completed planned = .group c (parts.map (evaluate completed planned)) := by
  cases c
  · exact evaluate_all completed planned parts
  · exact evaluate_any completed planned parts

theorem Built.clean (built : r.Built) (completed : Completed) (planned : List String) :
    (r.evaluate completed planned).Clean :=
  (built.decides completed planned).clean.1

theorem Regroups.built_iff (h : Regroups r r') : r.Built ↔ r'.Built := by
  induction h with
  | one c p => simp [built_group]
  | splice c before after some => simp [built_group, some, or_imp, forall_and]
  | part c before after _ ih => simp [built_group, or_imp, forall_and, ih]

/-- A change of the grouping does not change what is found. -/
theorem Regroups.evaluate (h : Regroups r r') (built : r.Built) (completed : Completed) (planned : List String) :
    r.evaluate completed planned = r'.evaluate completed planned := by
  induction h with
  | one c p =>
    have part : p.Built := (Regroups.one c p).built_iff.1 built
    have lists := part.lists completed planned
    rw [evaluate_group]
    cases c
    · exact Verdict.all_one lists.missing_once lists.softVia_once
    · exact Verdict.any_one (part.clean completed planned)
  | @splice c before inner after some =>
    have flat := (built_group.1 ((Regroups.splice c before after some).built_iff.1 built)).2
    simp only [evaluate_group, List.map_append, List.map_cons]
    cases c
    · exact Verdict.all_splice _ _ _
    · refine Verdict.any_splice (by simpa using some) ?_
      simpa only [← List.map_append, List.forall_mem_map] using fun p hp => (flat p hp).clean completed planned
  | @part c before p q after _ ih =>
    have part : p.Built := (built_group.1 built).2 p (by simp)
    simp only [evaluate_group, List.map_append, List.map_cons, ih part]

/-- Any number of changes, there and back. -/
theorem evaluate_of_eqvGen (h : Relation.EqvGen Regroups r r') :
    (r.Built ↔ r'.Built) ∧
      (r.Built → ∀ completed planned, r.evaluate completed planned = r'.evaluate completed planned) := by
  induction h with
  | rel r r' change => exact ⟨change.built_iff, fun built => change.evaluate built⟩
  | refl r => exact ⟨.rfl, fun _ _ _ => rfl⟩
  | symm r r' _ ih => exact ⟨ih.1.symm, fun built completed planned => (ih.2 (ih.1.2 built) completed planned).symm⟩
  | trans r r' r'' _ _ first second =>
    exact ⟨first.1.trans second.1, fun built completed planned =>
      (first.2 built completed planned).trans (second.2 (first.1.1 built) completed planned)⟩

/-! ## Texts with every group written out -/

/-- The first tree is tidy, and every evaluation finds the same for both. -/
structure Renders (full r : Requirement) : Prop where
  tidy : full.Tidy
  same : ∀ completed planned, full.evaluate completed planned = r.evaluate completed planned

theorem Tidy.renders (tidy : r.Tidy) : r.Renders r := ⟨tidy, fun _ _ => rfl⟩

theorem tidy_group {c : Connective} {parts : List Requirement} (some : parts ≠ []) (each : ∀ p ∈ parts, p.Tidy) :
    (group c parts).Tidy := by
  cases c
  · exact .all some each
  · exact .any some each

namespace Renders

/-- A group of one part stands for what its part stands for. -/
theorem one (c : Connective) (h : r.Renders r') : (group c [r]).Renders r' where
  tidy := tidy_group (by simp) (by simpa using h.tidy)
  same completed planned := by
    have built := (Regroups.one c r).built_iff.2 h.tidy.built
    rw [(Regroups.one c r).evaluate built, h.same]

/-- A group stands for the group of what its parts stand for. -/
theorem group {c : Connective} {parts parts' : List Requirement} (some : parts ≠ [])
    (h : List.Forall₂ Renders parts parts') : (group c parts).Renders (group c parts') where
  tidy := tidy_group some fun p hp => by
    obtain ⟨p', -, renders⟩ := exists_of_forall₂ h hp
    exact renders.tidy
  same completed planned := by
    rw [evaluate_group, evaluate_group, map_eq_of_forall₂ h fun p p' renders => renders.same completed planned]

end Renders

namespace Prose

open DegreePlan.Text

/-- Reads a clause as a choice, also where it names one course. -/
def clauseInFull (cs : List Char) : Except Fault Requirement := do
  join .any (← ((alternatives false cs).filter hasContent).mapM readCourse)

/-- Reads a choice as alternatives of groups, also where one course is to be chosen. -/
def choiceInFull (choice : Choice) : Except Fault Requirement := do
  let count ← countValue choice.count
  let courses ← ((alternatives true (trimToken choice.options)).filter hasContent).mapM readCourse
  join .any (← (combinations (count.getD 0) courses).mapM (join .all))

/-- Reads a cell as a group of clauses or as a choice, with no group left away. -/
def inFull (text : String) : Except Fault Requirement := do
  let cs := trim text.toList
  match choice? cs with
  | some choice => choiceInFull choice
  | none => join .all (← ((cutAt (· == ';') cs).filter hasContent).mapM clauseInFull)

/-- Where a part stands for itself because it is alone, a group can stand as well. -/
theorem join_of_single {c : Connective} {parts parts' : List Requirement} {r : Requirement}
    (h : single c parts' = .ok r) (renders : List.Forall₂ Renders parts parts') :
    ∃ full, join c parts = .ok full ∧ full.Renders r := by
  cases renders with
  | nil => cases h
  | cons hp rest =>
    refine ⟨group c _, join_eq_ok_iff.2 ⟨by simp, rfl⟩, ?_⟩
    cases rest with
    | nil => cases h; exact hp.one c
    | cons hq rest =>
      obtain ⟨-, rfl⟩ := join_eq_ok_iff.1 (show join c _ = .ok r from h)
      exact .group (by simp) (.cons hp (.cons hq rest))

theorem renders_courses {pieces : List (List Char)} {courses : List Requirement}
    (h : pieces.mapM readCourse = .ok courses) : List.Forall₂ Renders courses courses :=
  List.forall₂_same.2 fun p hp => ((gives_readCourses pieces).of_ok h p hp).renders

theorem clauseInFull_of_readClause {cs : List Char} {r : Requirement} (h : readClause cs = .ok r) :
    ∃ full, clauseInFull cs = .ok full ∧ full.Renders r := by
  obtain ⟨courses, read, h⟩ := bind_eq_ok.1 h
  split at h
  · cases h
  · rw [clauseInFull, read]
    exact join_of_single h (renders_courses read)

theorem combinations_one {α : Type} (l : List α) : combinations 1 l = l.map ([·]) := by
  induction l with
  | nil => rfl
  | cons a l ih => simp [combinations, ih]

theorem choiceInFull_of_readChoice {text : List Char} {choice : Choice} {r : Requirement}
    (h : readChoice text choice = .ok r) : ∃ full, choiceInFull choice = .ok full ∧ full.Renders r := by
  have tidy : r.Tidy := (gives_readChoice text choice).of_ok h
  obtain ⟨count, counted, rest⟩ := bind_eq_ok.1 h
  obtain ⟨courses, read, chosen⟩ := bind_eq_ok.1 rest
  clear h rest
  simp only [choiceInFull, counted, read, ok_bind]
  cases count with
  | none => cases chosen
  | some n =>
    dsimp only at chosen
    split at chosen
    · cases chosen
    · split at chosen
      · next one =>
        -- one course is chosen, so each alternative is a group of one course
        obtain rfl : n = 1 := by simpa using one
        have groups : (combinations 1 courses).mapM (join .all) = .ok (courses.map fun p => group .all [p]) := by
          rw [combinations_one, List.mapM_map]
          exact mapM_ok fun p _ => rfl
        simp only [Option.getD_some, groups, ok_bind]
        refine join_of_single chosen (List.forall₂_map_left_iff.2 (List.forall₂_same.2 fun p hp => ?_))
        exact Renders.one .all ((gives_readCourses _).of_ok read p hp).renders
      · split at chosen
        · cases chosen
        · exact ⟨r, chosen, tidy.renders⟩

theorem inFull_of_ofProse {text : String} {r : Requirement} (h : ofProse text = .ok (some r)) :
    ∃ full, inFull text = .ok full ∧ full.Renders r := by
  unfold ofProse at h
  unfold inFull
  dsimp only at h ⊢
  split at h
  · cases h
  · split at h
    · cases h
    · revert h
      cases choice? (trim text.toList) with
      | some choice =>
        intro h
        obtain ⟨whole, read, made⟩ := bind_eq_ok.1 h
        obtain rfl := Option.some.inj (pure_eq_ok.1 made)
        exact choiceInFull_of_readChoice read
      | none =>
        intro h
        obtain ⟨clauses, read, h⟩ := bind_eq_ok.1 h
        obtain ⟨fulls, full, renders⟩ := mapM_of_mapM read fun cs c => clauseInFull_of_readClause
        simp only [full, ok_bind]
        split at h
        · cases h
        · obtain ⟨whole, made, h⟩ := bind_eq_ok.1 h
          obtain rfl := Option.some.inj (pure_eq_ok.1 h)
          exact join_of_single made renders

end Prose

/-- Trees that differ in their grouping are judged alike. A text is judged like its tree with every group written out,
    which can be sent and read back. -/
theorem regrouping_neutral :
    (∀ r r' : Requirement, r.Built → Relation.EqvGen Regroups r r' →
      r'.Built ∧ ∀ completed planned, r'.evaluate completed planned = r.evaluate completed planned) ∧
    ∀ text t, ofProse text = .ok (some t) →
      ∃ full, Prose.inFull text = .ok full ∧
        (∀ v : Json, v.same full.wire = true → ofWire v = .ok (some full)) ∧
        ∀ completed planned, full.evaluate completed planned = t.evaluate completed planned := by
  refine ⟨fun r r' built changes => ?_, fun text t read => ?_⟩
  · obtain ⟨both, alike⟩ := evaluate_of_eqvGen changes
    exact ⟨both.1 built, fun completed planned => (alike built completed planned).symm⟩
  · obtain ⟨full, written, renders⟩ := Prose.inFull_of_ofProse read
    have sent (v : Json) (hv : v.same full.wire = true) : ofWire v = .ok (some full) :=
      ofWire_toWire (by simpa using renders.tidy) hv
    exact ⟨full, written, sent, renders.same⟩

/-- Two alternatives, the second within a group and a choice of its own. -/
def nestedChoice : Requirement :=
  .any [.course "CS 1301" none, .all [.any [.course "MATH 1551" none, .course "MATH 1552" none]]]

/-- Three alternatives. -/
def flatChoice : Requirement := .any [.course "CS 1301" none, .course "MATH 1551" none, .course "MATH 1552" none]

/-- A list of two clauses, each of them a choice. -/
def spelledClauses : Requirement :=
  .all [.any [.course "CS 1301" none], .any [.course "MATH 1551" none, .course "MATH 1552" none]]

/-- The clauses with the first course on its own. -/
def shortClauses : Requirement :=
  .all [.course "CS 1301" none, .any [.course "MATH 1551" none, .course "MATH 1552" none]]

open Text Prose in
/-- The group of one part gives way to its choice, whose alternatives then move up. The text names one course alone. -/
theorem regrouping_neutral_nested :
    nestedChoice.Built ∧ Relation.EqvGen Regroups nestedChoice flatChoice ∧
      (∀ completed planned, flatChoice.evaluate completed planned = nestedChoice.evaluate completed planned) ∧
    ofProse "CS 1301; MATH 1551 or MATH 1552" = .ok (some shortClauses) ∧
      ofWire spelledClauses.wire = .ok (some spelledClauses) ∧
      ∀ completed planned, spelledClauses.evaluate completed planned = shortClauses.evaluate completed planned := by
  have built : nestedChoice.Built := by simp +decide [nestedChoice]
  have inner :
      Regroups nestedChoice
      (.any [.course "CS 1301" none, .any [.course "MATH 1551" none, .course "MATH 1552" none]]) :=
    .part .any [.course "CS 1301" none] [] (.one .all (.any [.course "MATH 1551" none, .course "MATH 1552" none]))
  have outer :
      Regroups (.any [.course "CS 1301" none, .any [.course "MATH 1551" none, .course "MATH 1552" none]]) flatChoice :=
    .splice .any [.course "CS 1301" none] [] (by simp)
  have changes := (Relation.EqvGen.rel _ _ inner).trans _ _ _ (.rel _ _ outer)
  have read : ofProse "CS 1301; MATH 1551 or MATH 1552" = .ok (some shortClauses) := by
    have needed : nothing.contains (lower (String.ofList (trim "CS 1301; MATH 1551 or MATH 1552".toList))) = false := by
      decide +kernel
    have quiet : (unsupportedWords.any fun word => hasInfix word.toList
        (lower (String.ofList (trim "CS 1301; MATH 1551 or MATH 1552".toList))).toList) = false := by decide +kernel
    simp only [ofProse, needed, quiet, Bool.false_eq_true, if_false]
    cbv
  have spelled : Prose.inFull "CS 1301; MATH 1551 or MATH 1552" = .ok spelledClauses := by cbv
  obtain ⟨full, written, sent, alike⟩ := regrouping_neutral.2 _ _ read
  obtain rfl : full = spelledClauses := Except.ok.inj (written.symm.trans spelled)
  exact ⟨built, changes, (regrouping_neutral.1 _ _ built changes).2, read, sent _ (by decide +kernel), alike⟩

end Requirement
end DegreePlan
