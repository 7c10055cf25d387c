import DegreePlan.Proofs.Course.Code
import DegreePlan.Proofs.Json.Equality
import DegreePlan.Proofs.Requirement.Evaluation
import DegreePlan.Requirement.Prose
import DegreePlan.Requirement.Wire

/-!
# Reading trees and writing them down

A tree that is read, from a value or from prose, is tidy: its codes are trimmed and not empty, and so are
its groups. A tidy tree is written as a value that is read as the tree again, in whatever order the fields
stand. Reading a value that is no tree ends with a fault of trees, with one exception: an object whose
courses are a number or true stops it with another fault.
-/

namespace DegreePlan.Requirement

open DegreePlan.Text

/-! ## Tidy trees -/

/-- A tree whose courses have trimmed codes and whose groups have parts. -/
inductive Tidy : Requirement → Prop where
  | course {code : String} {minimum : Option Letter} (named : code ≠ "") (trimmed : strip code = code) :
    Tidy (course code minimum)
  | all {parts : List Requirement} (some : parts ≠ []) (each : ∀ p ∈ parts, Tidy p) : Tidy (all parts)
  | any {parts : List Requirement} (some : parts ≠ []) (each : ∀ p ∈ parts, Tidy p) : Tidy (any parts)

/-- A minimum as a value. -/
def minimumJson (minimum : Option Letter) : Json := minimum.elim .null fun l => .str l.text

/-- A trimmed code and a letter make a leaf. -/
theorem leaf_of_trimmed {code : String} (named : code ≠ "") (trimmed : strip code = code) (minimum : Option Letter) :
    leaf (.str code) (minimumJson minimum) = .ok (course code minimum) := by
  have shown : (strip code).isEmpty = false := by rw [trimmed]; simpa using named
  cases minimum with
  | none => simp only [leaf, Json.text?, shown]; rfl
  | some l => simp only [leaf, Json.text?, shown, minimumJson, Option.elim_some, Letter.of?_text]; rfl

theorem Tidy.built {r : Requirement} (h : r.Tidy) : r.Built := by
  induction h with
  | course named trimmed => exact .leaf (leaf_of_trimmed named trimmed _)
  | all some _ ih => exact built_all.2 ⟨some, ih⟩
  | any some _ ih => exact built_any.2 ⟨some, ih⟩

/-! ## Reading values -/

/-- The fault is one of a broken tree. -/
def TreeFaulty (f : Fault) : Prop := f.isTreeFault = true

theorem TreeFaulty.tree (cause : TreeFault) : TreeFaulty (.tree cause) := rfl

theorem gives_leaf (s : String) (minimum : Json) : Gives Tidy TreeFaulty (leaf (.str (strip s)) minimum) := by
  simp only [leaf, Json.text?, strip_strip]
  split
  · exact .error (.tree _)
  · next hs =>
    have tidy (minimum : Option Letter) : Tidy (course (strip s) minimum) := .course (by simpa using hs) (strip_strip s)
    split
    · exact .ok (tidy none)
    · split
      · exact .ok (tidy _)
      · exact .error (.tree _)

theorem gives_join {c : Connective} {parts : List Requirement} {Q : Fault → Prop} (h : ∀ p ∈ parts, Tidy p)
    (hq : Q (.tree (.noChildren c))) : Gives Tidy Q (join c parts) := by
  unfold join
  split
  · exact .error hq
  · next hp =>
    have some : parts ≠ [] := by simpa using hp
    cases c
    · exact .ok (.all some h)
    · exact .ok (.any some h)

mutual

/-- A clause is read as a tidy tree or is a broken tree. -/
theorem gives_ofClause : (v : Json) → Gives Tidy TreeFaulty (ofClause v)
  | .obj fields => by rw [ofClause, ofCourseRecord]; exact gives_leaf _ _
  | .str s => by rw [ofClause]; exact gives_leaf s .null
  | .arr [] => by rw [ofClause]; exact .error (.tree _)
  | .arr (operator :: clauses) => by
    rw [ofClause]
    split
    · exact .error (.tree _)
    · exact (gives_ofClauses clauses).bind fun parts tidy => gives_join tidy (.tree _)
  | .null | .bool _ | .int _ | .real _ => by simp only [ofClause]; exact .error (.tree _)

/-- Several clauses are read as tidy trees or one of them is a broken tree. -/
theorem gives_ofClauses : (vs : List Json) → Gives (∀ r ∈ ·, Tidy r) TreeFaulty (ofClauses vs)
  | [] => by rw [ofClauses]; exact .ok (List.forall_mem_nil Tidy)
  | v :: vs => by
    rw [ofClauses]
    exact (gives_ofClause v).bind fun r hr => (gives_ofClauses vs).bind fun rs hrs =>
      .ok (List.forall_mem_cons.2 ⟨hr, hrs⟩)

end

/-! ## Objects with courses -/

/-- A truth value or a number. -/
def isScalar : Json → Bool
  | .bool _ | .int _ | .real _ => true
  | _ => false

/-- An object with courses whose connective is known and whose courses are true or a number but not zero. -/
def Unlisted (raw : Json) : Prop :=
  ∃ fields courses, raw = .obj fields ∧ fields.lookup "courses" = some courses ∧
    (connective? ((Json.fieldOf fields "type").orElse (.str "and"))).isSome = true ∧
    courses.isBlank = false ∧ isScalar courses = true

/-- What is neither null nor a scalar has parts. -/
theorem parts_ok {v : Json} (blank : v.isBlank = false) (h : isScalar v = false) :
    ∃ clauses, v.parts = .ok clauses := by
  cases v with
  | str | arr | obj => exact ⟨_, rfl⟩
  | null => cases blank
  | bool | int | real => cases h

theorem gives_group (c : Connective) (clauses : List Json) :
    Gives Tidy TreeFaulty (do join c (← ofClauses clauses)) :=
  (gives_ofClauses clauses).bind fun _ tidy => gives_join tidy (.tree _)

theorem gives_ofGroupRecord {fields : List (String × Json)} {courses : Json}
    (hc : fields.lookup "courses" = some courses) (listed : ¬ Unlisted (.obj fields)) :
    Gives Tidy TreeFaulty (ofGroupRecord fields courses) := by
  unfold ofGroupRecord
  dsimp only
  split
  · exact .error (.tree _)
  · next c known =>
    split
    · exact gives_group c []
    · next blank =>
      have blank : courses.isBlank = false := by simpa using blank
      have scalar : isScalar courses = false := by
        by_contra scalar
        exact listed ⟨fields, courses, rfl, hc, by rw [known]; rfl, blank, by simpa using scalar⟩
      obtain ⟨clauses, hcl⟩ := parts_ok blank scalar
      rw [hcl, ok_bind]
      exact gives_group c clauses

/-- Reading a value gives no requirement, a tidy tree or a fault of trees, unless it is an object whose courses
    are no list. -/
theorem gives_ofWire {raw : Json} (listed : ¬ Unlisted raw) :
    Gives (∀ r ∈ ·, Tidy r) TreeFaulty (ofWire raw) := by
  have one {x : Except Fault Requirement} (hx : Gives Tidy TreeFaulty x) :
      Gives (∀ r ∈ ·, Tidy r) TreeFaulty (do return some (← x)) :=
    hx.bind fun r hr => .ok (by simpa using hr)
  unfold ofWire
  split
  · exact .ok (by simp)
  · exact .ok (by simp)
  · split
    · next hc => exact one (gives_ofGroupRecord hc listed)
    · exact one (gives_ofClause _)
  · exact one (gives_ofClause _)

/-- The exception stops reading with another fault. -/
theorem ofWire_unlisted {raw : Json} (h : Unlisted raw) : ∃ kind, ofWire raw = .error (.value (.notAList kind)) := by
  obtain ⟨fields, courses, rfl, hc, hk, blank, scalar⟩ := h
  obtain ⟨c, hk⟩ := Option.isSome_iff_exists.1 hk
  refine ⟨courses.kindName, ?_⟩
  have stuck : courses.parts = .error (.value (.notAList courses.kindName)) := by
    cases courses with
    | bool | int | real => rfl
    | null | str | arr | obj => cases scalar
  simp only [ofWire, hc, ofGroupRecord, hk, blank, if_neg Bool.false_ne_true, stuck, error_bind]

/-- A tree that is read from a value is tidy. -/
theorem tidy_of_ofWire {raw : Json} {tree : Option Requirement} (h : ofWire raw = .ok tree) :
    ∀ r ∈ tree, Tidy r := by
  refine (gives_ofWire fun unlisted => ?_).of_ok h
  obtain ⟨kind, stuck⟩ := ofWire_unlisted unlisted
  cases h.symm.trans stuck

/-! ## Reading back what was written -/

theorem wireOf_eq (parts : List Requirement) : wireOf parts = parts.map wire := by
  induction parts with
  | nil => rfl
  | cons r rs ih => rw [wireOf, ih, List.map_cons]

theorem ofClauses_eq (vs : List Json) : ofClauses vs = vs.mapM ofClause := by
  induction vs with
  | nil => rfl
  | cons v vs ih => rw [ofClauses, ih, List.mapM_cons]

/-- A value that equals a field that is null or a text has exactly this field. -/
theorem fieldOf_of_lookup {fields fields' : List (String × Json)}
    (h : ∀ name, (fields.lookup name).map Json.canonical = (fields'.lookup name).map Json.canonical) (name : String)
    (plain : Json.fieldOf fields' name = .null ∨ ∃ s, Json.fieldOf fields' name = .str s) :
    Json.fieldOf fields name = Json.fieldOf fields' name := by
  have equal : (Json.fieldOf fields name).canonical = (Json.fieldOf fields' name).canonical := by
    have := h name
    simp only [Json.fieldOf]
    cases hf : fields.lookup name <;> cases hf' : fields'.lookup name <;> simp_all
  rcases plain with hn | ⟨s, hs⟩
  · rw [hn] at equal ⊢
    exact Json.canonical_eq_null (by simpa [Json.canonical] using equal)
  · rw [hs] at equal ⊢
    exact Json.canonical_eq_str (by simpa using equal)

/-- The fields of a course that is written. -/
theorem wire_course (code : String) (minimum : Option Letter) :
    ∃ fields, (course code minimum).wire = .obj fields ∧ (fields.map (·.1)).Nodup ∧
      Json.fieldOf fields "id" = .str code ∧
      Json.fieldOf fields "grade" = minimumJson minimum ∧ Json.fieldOf fields "min_grade" = .null ∧
      fields.lookup "courses" = none := by
  cases minimum <;> exact ⟨_, rfl, by simp, rfl, rfl, rfl, rfl⟩

/-- A value that equals what a course is written as is an object without courses that is read as the course. -/
theorem ofCourseRecord_wire {code : String} (named : code ≠ "") (trimmed : strip code = code)
    (minimum : Option Letter) {v : Json} (h : v.canonical = (course code minimum).wire.canonical) :
    ∃ fields, v = .obj fields ∧ fields.lookup "courses" = none ∧
      ofCourseRecord fields = .ok (course code minimum) := by
  obtain ⟨written, hw, once, id, grade, other, courses⟩ := wire_course code minimum
  rw [hw] at h
  obtain ⟨fields, rfl, alike⟩ := Json.canonical_eq_obj h once
  refine ⟨fields, rfl, by simpa [courses] using alike "courses", ?_⟩
  have id : Json.fieldOf fields "id" = .str code := by rw [fieldOf_of_lookup alike "id" (.inr ⟨code, id⟩), id]
  have grade : Json.fieldOf fields "grade" = minimumJson minimum := by
    rw [fieldOf_of_lookup alike "grade" (grade ▸ by cases minimum <;> simp [minimumJson]), grade]
  have other : Json.fieldOf fields "min_grade" = .null := by
    rw [fieldOf_of_lookup alike "min_grade" (.inl other), other]
  have shown (fallback : Json) : (Json.str code).orElse fallback = .str code := by
    simp [Json.orElse, Json.isBlank, named]
  have least :
      (if ((minimumJson minimum).orElse .null).isBlank then .null
        else .str ((minimumJson minimum).orElse .null).asText) =
      minimumJson minimum := by
    rcases minimum with _ | l
    · rfl
    · cases l <;> rfl
  simp only [ofCourseRecord, id, grade, other, shown, least]
  rw [show (Json.str code).asText = code from rfl, trimmed]
  exact leaf_of_trimmed named trimmed minimum

theorem connective?_wire : connective? (.str "and") = some .all ∧ connective? (.str "or") = some .any :=
  ⟨by decide, by decide⟩

/-- A value that equals what a tidy tree is written as is read as the tree. -/
theorem Tidy.ofClause_wire {r : Requirement} (h : Tidy r) {v : Json} (hv : v.canonical = r.wire.canonical) :
    ofClause v = .ok r := by
  have group {c : Connective} {name : String} {parts : List Requirement} {v : Json}
    (hc : connective? (.str name) = some c)
      (ih : ∀ p ∈ parts, ∀ {v : Json}, v.canonical = p.wire.canonical → ofClause v = .ok p)
      (hv : v.canonical = (Json.arr (.str name :: wireOf parts)).canonical) : ofClause v = join c parts := by
    obtain ⟨items, rfl, alike⟩ := Json.canonical_eq_arr hv
    obtain ⟨operator, clauses, rfl, ho, hcl⟩ := List.map_eq_cons_iff.1 alike
    obtain rfl := Json.canonical_eq_str (ho.trans (Json.canonical_str name))
    have read : ofClauses clauses = .ok parts := by
      rw [ofClauses_eq, mapM_eq_ok]
      rw [wireOf_eq, List.map_map, ← List.forall₂_eq_eq_eq, List.forall₂_map_left_iff,
        List.forall₂_map_right_iff] at hcl
      exact (List.forall₂_iff_zip.2 ⟨hcl.length_eq,
        fun hz => ih _ (List.of_mem_zip hz).2 ((List.forall₂_iff_zip.1 hcl).2 hz)⟩)
    rw [ofClause]
    simp only [hc, read, ok_bind]
  induction h generalizing v with
  | @course code minimum named trimmed =>
    obtain ⟨fields, rfl, -, read⟩ := ofCourseRecord_wire named trimmed minimum hv
    rw [ofClause, read]
  | all some each ih => rw [group connective?_wire.1 ih hv, join, if_neg (by simpa using some)]
  | any some each ih => rw [group connective?_wire.2 ih hv, join, if_neg (by simpa using some)]

/-- A value that equals what a tree is written as is read as the tree. -/
theorem ofWire_toWire {tree : Option Requirement} (h : ∀ r ∈ tree, Tidy r) {v : Json}
    (hv : v.same (toWire tree) = true) : ofWire v = .ok tree := by
  rw [Json.same_iff] at hv
  cases tree with
  | none =>
    obtain ⟨items, rfl, alike⟩ := Json.canonical_eq_arr (show v.canonical = (Json.arr []).canonical from hv)
    obtain rfl := List.map_eq_nil_iff.1 alike
    rfl
  | some r =>
    have tidy := h r rfl
    have read : ofClause v = .ok r := tidy.ofClause_wire hv
    cases tidy with
    | @course code minimum named trimmed =>
      obtain ⟨fields, rfl, courses, -⟩ := ofCourseRecord_wire named trimmed minimum hv
      simp only [ofWire, courses, read, ok_bind]
      rfl
    | @all parts _ _ | @any parts _ _ =>
      obtain ⟨items, rfl, alike⟩ :=
        Json.canonical_eq_arr (show v.canonical = (Json.arr (.str _ :: wireOf parts)).canonical from hv)
      obtain ⟨operator, clauses, rfl, -⟩ := List.map_eq_cons_iff.1 alike
      simp only [ofWire, read, ok_bind]
      rfl

/-! ## Reading prose -/

/-- What is read as a course is tidy or a fault of trees. -/
theorem gives_readCourse (cs : List Char) : Gives Tidy TreeFaulty (Prose.readCourse cs) := by
  unfold Prose.readCourse
  dsimp only
  split
  · next code hc =>
    obtain ⟨trimmed, named⟩ := Course.codeOfChars?_trimmed hc
    refine .ok (.course ?_ ?_)
    · simpa using named
    · rw [strip, String.toList_ofList, trim_of_trimmed trimmed]
  · exact .error (.tree _)

theorem gives_single (c : Connective) {parts : List Requirement} (h : ∀ p ∈ parts, Tidy p) :
    Gives Tidy TreeFaulty (Prose.single c parts) := by
  unfold Prose.single
  split
  · exact .ok (by simpa using h)
  · exact gives_join h (.tree _)

theorem gives_readCourses (pieces : List (List Char)) :
    Gives (∀ r ∈ ·, Tidy r) TreeFaulty (pieces.mapM Prose.readCourse) := .mapM fun _ _ => gives_readCourse _

theorem gives_readClause (cs : List Char) : Gives Tidy TreeFaulty (Prose.readClause cs) := by
  unfold Prose.readClause
  refine (gives_readCourses _).bind fun courses tidy => ?_
  split
  · exact .error (.tree _)
  · exact gives_single .any tidy

/-- A combination is made of members of the list. -/
theorem mem_combinations {α : Type} {n : Nat} {l chosen : List α} (h : chosen ∈ Prose.combinations n l) :
    chosen ⊆ l := by
  induction l generalizing n chosen with
  | nil => cases n <;> simp_all [Prose.combinations]
  | cons a l ih =>
    cases n with
    | zero => simp_all [Prose.combinations]
    | succ n =>
      unfold Prose.combinations at h
      split at h
      · cases h
      · rcases List.mem_append.1 h with h | h
        · obtain ⟨rest, hr, rfl⟩ := List.mem_map.1 h
          exact List.cons_subset_cons a (ih hr)
        · exact List.subset_cons_of_subset a (ih h)

/-- Once its count is read, a choice is tidy or a fault of trees. -/
theorem gives_readChoice (text : List Char) (choice : Prose.Choice) :
    Gives Tidy (fun f => TreeFaulty f ∨ Prose.countValue choice.count = .error f) (Prose.readChoice text choice) := by
  unfold Prose.readChoice
  cases hc : Prose.countValue choice.count with
  | error f => exact .error (.inr rfl)
  | ok count =>
    simp only [ok_bind]
    refine .mono (fun _ => .inl) ((gives_readCourses _).bind fun courses tidy => ?_)
    split
    · exact .error (.tree _)
    · split
      · exact .error (.tree _)
      · split
        · exact gives_single .any tidy
        · split
          · exact .error (.tree _)
          · refine (Gives.mapM fun chosen hc => ?_).bind fun parts tidy => gives_join tidy (.tree _)
            exact gives_join (fun r hr => tidy r (mem_combinations hc hr)) (.tree _)

/-- Reading prose gives no requirement, a tidy tree or a fault of trees, unless the count of a choice cannot be read. -/
theorem gives_ofProse (text : String) : Gives (∀ r ∈ ·, Tidy r) (fun f => TreeFaulty f ∨
    ∃ choice, Prose.choice? (trim text.toList) = some choice ∧
      Prose.countValue choice.count = .error f) (ofProse text) := by
  have one {Q : Fault → Prop} {x : Except Fault Requirement} (hx : Gives Tidy Q x) :
      Gives (∀ r ∈ ·, Tidy r) Q (do return some (← x)) := hx.bind fun r hr => .ok (by simpa using hr)
  unfold ofProse
  dsimp only
  split
  · exact .ok (by simp)
  · split
    · exact .error (.inl (.tree _))
    · split
      · next choice hc =>
        exact one (.mono (fun _ => .imp_right fun stuck => ⟨choice, hc, stuck⟩) (gives_readChoice _ choice))
      · refine .mono (fun _ => .inl) ((Gives.mapM fun cs _ => gives_readClause cs).bind fun clauses tidy => ?_)
        split
        · exact .ok (by simp)
        · exact one (gives_single .all tidy)

/-- A tree that is read from prose is tidy. -/
theorem tidy_of_ofProse {text : String} {tree : Option Requirement} (h : ofProse text = .ok tree) :
    ∀ r ∈ tree, Tidy r :=
  (gives_ofProse text).of_ok h

/-- The trees that a value or a text is read as, none included. -/
inductive Given : Option Requirement → Prop where
  | value {raw : Json} {tree : Option Requirement} (h : ofWire raw = .ok tree) : Given tree
  | prose {text : String} {tree : Option Requirement} (h : ofProse text = .ok tree) : Given tree

theorem Given.tidy {tree : Option Requirement} (h : Given tree) : ∀ r ∈ tree, Tidy r := by
  cases h with
  | value h => exact tidy_of_ofWire h
  | prose h => exact tidy_of_ofProse h

/-! ## Broken trees -/

/-- Judges a value of the catalog as the requirement of a course, with the warnings of reading it. -/
def evaluateWire (raw course : Json) (taken : Taken) (planned : List String) : List String × Except Stop Verdict :=
  match ofWireOrNone raw course with
  | (log, .error fault) => (log, .error (.fault fault))
  | (log, .ok none) => (log, .ok { satisfied := true })
  | (log, .ok (some r)) => (log, r.node.evaluate taken planned)

/-- What is read leniently is what is read, or nothing where reading ends with a fault of trees. -/
theorem ofWireOrNone_cases (raw course : Json) :
    (∃ tree, ofWire raw = .ok tree ∧ ofWireOrNone raw course = ([], .ok tree)) ∨
      (∃ f warning, ofWire raw = .error f ∧ TreeFaulty f ∧ ofWireOrNone raw course = ([warning], .ok none)) ∨
      ∃ f, ofWire raw = .error f ∧ f.isTreeFault = false ∧ ofWireOrNone raw course = ([], .error f) := by
  unfold ofWireOrNone
  cases ofWire raw with
  | ok tree => exact .inl ⟨tree, rfl, rfl⟩
  | error f =>
    cases hf : f.isTreeFault with
    | true => exact .inr (.inl ⟨f, _, rfl, hf, if_pos hf⟩)
    | false => exact .inr (.inr ⟨f, rfl, hf, by simp [hf]⟩)

/-- Reading ends with a fault of another kind exactly at the objects whose courses are no list. -/
theorem ofWire_escapes {raw : Json} : (∃ f, ofWire raw = .error f ∧ f.isTreeFault = false) ↔ Unlisted raw := by
  constructor
  · rintro ⟨f, hf, other⟩
    by_contra listed
    have faulty : f.isTreeFault = true := (gives_ofWire listed).of_error hf
    rw [faulty] at other
    cases other
  · intro unlisted
    obtain ⟨kind, stuck⟩ := ofWire_unlisted unlisted
    exact ⟨_, stuck, rfl⟩

theorem tidy_of_ofWireOrNone {raw course : Json} {tree : Option Requirement}
    (h : (ofWireOrNone raw course).2 = .ok tree) : ∀ r ∈ tree, Tidy r := by
  rcases ofWireOrNone_cases raw course with ⟨t, hw, hn⟩ | ⟨f, warning, hw, faulty, hn⟩ | ⟨f, hw, other, hn⟩
  · rw [hn] at h
    exact Except.ok.inj h ▸ tidy_of_ofWire hw
  · rw [hn] at h
    simp [← Except.ok.inj h]
  · rw [hn] at h
    cases h

/-- What is read leniently is tidy, so its evaluation gives a verdict. -/
theorem evaluateWire_eq_ok {raw course : Json} {tree : Option Requirement} (h : (ofWireOrNone raw course).2 = .ok tree)
    (taken : Taken) (planned : List String) :
    (evaluateWire raw course taken planned).2 = .ok (judge tree taken.completed planned) := by
  have tidy := tidy_of_ofWireOrNone h
  unfold evaluateWire
  split
  · next hn => rw [hn] at h; cases h
  · next hn => rw [hn] at h; cases h; rfl
  · next r hn =>
    rw [hn] at h
    cases h
    exact (tidy r rfl).built.evaluate_node taken planned

/-- A value gives a tidy tree or none, or a fault of trees, which counts as none. Evaluation then judges the
    tree. All of this stops exactly at the objects whose courses are no list. -/
theorem broken_trees_degrade (raw course : Json) (taken : Taken) (planned : List String) :
    Gives (∀ r ∈ ·, Tidy r) (fun f => TreeFaulty f ∨ Unlisted raw) (ofWire raw) ∧
      ((∃ f, ofWire raw = .error f ∧ f.isTreeFault = false) ↔ Unlisted raw) ∧
      ((∃ f, (ofWireOrNone raw course).2 = .error f) ↔ Unlisted raw) ∧
      ((∃ stop, (evaluateWire raw course taken planned).2 = .error stop) ↔ Unlisted raw) ∧
      ∀ tree, (ofWireOrNone raw course).2 = .ok tree →
        (evaluateWire raw course taken planned).2 = .ok (judge tree taken.completed planned) := by
  have lenient : (∃ f, (ofWireOrNone raw course).2 = .error f) ↔ Unlisted raw := by
    rw [← ofWire_escapes]
    rcases ofWireOrNone_cases raw course with ⟨tree, hw, hn⟩ | ⟨f, warning, hw, faulty, hn⟩ |
      ⟨f, hw, other, hn⟩
    · simp [hw, hn]
    · simpa [hw, hn, TreeFaulty] using faulty
    · simp [hw, hn, other]
  refine ⟨?read, ofWire_escapes, lenient, ?evaluated, fun tree h => evaluateWire_eq_ok h taken planned⟩
  case read =>
    by_cases unlisted : Unlisted raw
    · obtain ⟨kind, stuck⟩ := ofWire_unlisted unlisted
      exact stuck ▸ .error (.inr unlisted)
    · cases h : ofWire raw with
      | ok tree => exact .ok (tidy_of_ofWire h)
      | error f => exact .error (.inl ((gives_ofWire unlisted).of_error h))
  case evaluated =>
    rw [← lenient]
    constructor
    · rintro ⟨stop, hs⟩
      cases h : (ofWireOrNone raw course).2 with
      | error f => exact ⟨f, rfl⟩
      | ok tree => rw [evaluateWire_eq_ok h] at hs; cases hs
    · rintro ⟨f, hf⟩
      refine ⟨.fault f, ?_⟩
      unfold evaluateWire
      split <;> simp_all

/-- Courses that are a number stop the reading, also where broken trees are to count as none, and the evaluation. -/
theorem number_as_courses_escapes :
    let raw : Json := .obj [("courses", .int 5)]
    let fault : Fault := .value (.notAList "int")
    ofWire raw = .error fault ∧ fault.isTreeFault = false ∧ ofWireOrNone raw .null = ([], .error fault) ∧
      evaluateWire raw .null (.listed []) [] = ([], .error (.fault fault)) := by
  have stuck : ofWire (.obj [("courses", .int 5)]) = .error (.value (.notAList "int")) := rfl
  refine ⟨stuck, rfl, ?_, ?_⟩
  · simp only [ofWireOrNone, stuck]
    rfl
  · simp only [evaluateWire, ofWireOrNone, stuck]
    rfl

end DegreePlan.Requirement
