import DegreePlan.Proofs.Plan.InPlace
import DegreePlan.Proofs.Plan.Records

/-!
# Plan data that is taken in

A plan takes in the semesters of a document or of an exported text, or it refuses them and stays as it was. What was
taken in can be read just when every semester is of the term of its id, which its record may contradict.
-/

namespace DegreePlan

open Plan

/-! ## In place -/

namespace Edit

variable {p : Plan}

/-- Replaces the plan by the semesters of a document. -/
def load (document : Json) : Edit Unit := do
  let records ← ofResult (recordsOf document)
  let r ← ofResult (records.foldlM Reading.add {})
  write fun p => { p with semesters := r.semesters }
  write touch

/-- Imports an exported text: whether it was accepted, and the warnings. -/
def importText (data : Json) : Edit (Bool × List String) :=
  match readExport data with
  | .error f => return (false, [importWarning f])
  | .ok document =>
    match semestersOf? document with
    | none => return (false, ["[WARN] Invalid import data: missing semesters"])
    | some semesters => tryCatch (do load semesters; return (true, [])) fun f =>
      if f.isDataFault then return (false, [importWarning f]) else throw f

theorem run_load (document : Json) : (load document).run p = outcome p (p.load document >>= fun q => pure ((), q)) := by
  rw [Plan.load, bind_assoc]
  refine ofResult_bind fun records _ => ?_
  rw [bind_assoc]
  exact ofResult_bind fun r _ => rfl

/-- What is raised is caught in the state that the first part left. -/
theorem run_tryCatch {α : Type} (x : Edit α) (recover : Fault → Edit α) :
    (tryCatch x recover).run p = match x.run p with
    | (.ok a, q) => (.ok a, q)
    | (.error f, q) => (recover f).run q := by
  simp only [tryCatch, tryCatchThe, MonadExceptOf.tryCatch, ExceptT.tryCatch, ExceptT.run, ExceptT.mk, bind,
    StateT.bind]
  rcases h : x p with ⟨_ | _, q⟩ <;> rfl

theorem run_importText (data : Json) :
    (importText data).run p =
    outcome p (p.importText data >>= fun (accepted, log, q) => pure ((accepted, log), q)) := by
  unfold importText Plan.importText
  cases readExport data with
  | error f => rfl
  | ok document =>
    dsimp only
    cases semestersOf? document with
    | none => rfl
    | some semesters =>
      dsimp only
      rw [run_tryCatch, run_bind, run_load]
      cases p.load semesters with
      | ok q => rfl
      | error f =>
        dsimp only [error_bind, outcome]
        cases f.isDataFault <;> rfl

end Edit

/-! ## Terms -/

namespace Semester

/-- The season and the year of the semester are those of its id. -/
def OwnTerm (s : Semester) : Prop := ∃ t, Term.ofId? s.id = some t ∧ s.term = .ofTerm t

/-- A record does not contradict its id: its year and its season, where it has them, are those of the id. -/
def Consistent (data : Json) : Prop :=
  ∀ t, (idIn? data).bind Term.ofId? = some t → (termIn data t).toOption = some (.ofTerm t)

instance (data : Json) : Decidable (Consistent data) :=
  decidable_of_iff (((idIn? data).bind Term.ofId?).all fun t => (termIn data t).toOption == some (.ofTerm t)) <| by
    cases h : (idIn? data).bind Term.ofId? <;> simp [Consistent, h]

theorem Reads.ownTerm_iff {data : Json} {s : Semester} (h : Reads data s) : s.OwnTerm ↔ Consistent data := by
  obtain ⟨t, ht, hterm⟩ := h.term
  simp [OwnTerm, Consistent, h.id, ht, hterm, Except.toOption]

theorem OwnTerm.dated {s : Semester} (h : s.OwnTerm) : s.Dated := by
  obtain ⟨t, -, ht⟩ := h
  simp [Dated, ht, TermName.ofTerm, TermName.term?, Season.ofText_text]

theorem OwnTerm.id_time {s : Semester} (h : s.OwnTerm) : s.time.id = s.id := by
  obtain ⟨t, hid, ht⟩ := h
  rw [← Term.id_ofId hid]
  simp [time, ht, TermName.ofTerm, TermName.term?, Season.ofText_text]

end Semester

namespace Plan

variable {p q : Plan}

/-- Every semester is of the term of its id. The plan lists every semester once, in the order of time, and what looks at
this list gives a result. -/
structure InOrder (q : Plan) : Prop where
  terms : ∀ s ∈ q.semesters, s.OwnTerm
  listed : ∃ l, q.ordered = .ok l ∧ l.Perm q.semesters ∧ l.Pairwise fun s t => s.time.before t.time = true
  snapshot : ∃ s, q.snapshot = .ok s
  courses : ∃ es, q.courses = .ok es
  clearPlanned : ∃ removed, q.clearPlanned = .ok removed

theorem inOrder_of_terms (ids : (q.semesters.map (·.id)).Nodup) (terms : ∀ s ∈ q.semesters, s.OwnTerm) :
    q.InOrder := by
  have ordered := ordered_of_dated fun s hs => (terms s hs).dated
  refine ⟨terms, ⟨_, ordered, sorted_perm _, ?_⟩, ⟨_, snapshot_eq_ok.2 ⟨_, ordered, rfl⟩⟩, ?_, ?_⟩
  · -- ids are different, so two semesters are never of one time
    have times : ((sorted q.semesters).map (·.time)).Nodup := by
      refine ((sorted_perm _).map _).nodup_iff.2 ((List.nodup_map_iff_inj_on ids.of_map).2 fun s hs t ht same => ?_)
      have sameId : s.id = t.id := by rw [← (terms s hs).id_time, ← (terms t ht).id_time, same]
      exact List.inj_on_of_nodup_map ids hs ht sameId
    refine ((pairwise_sorted q.semesters).and (List.pairwise_map.1 times)).imp fun {s t} h => ?_
    obtain ⟨notAfter, differ⟩ := h
    rw [← Bool.not_eq_false]
    exact fun notBefore => differ (Term.eq_of_not_before (by simpa [Semester.notAfter] using notAfter) notBefore)
  · exact ⟨_, by rw [Plan.courses, ordered]; rfl⟩
  · simp only [clearPlanned, withStatus, Plan.courses, ordered, ok_bind, pure_bind]
    split <;> exact ⟨_, rfl⟩

/-! ## Intakes -/

/-- Plan data as they are given to a plan: the semesters of a document or an exported text. -/
inductive Intake where
  | document (semesters : Json)
  | exported (data : Json)

namespace Intake

/-- Takes the data in, and tells whether they were accepted. -/
def take : Intake → Edit Bool
  | document semesters => do
    Edit.load semesters
    return true
  | exported data => do
    let (accepted, _) ← Edit.importText data
    return accepted

/-- The semesters in the data. -/
def semesters? : Intake → Option Json
  | document semesters => some semesters
  | exported data => (readExport data).toOption.bind semestersOf?

/-- The records of semesters in the data. -/
def records (i : Intake) : List Json := (i.semesters?.bind fun d => (recordsOf d).toOption).getD []

/-- Data that are not accepted leave the plan as it was; the semesters of accepted data are loaded. -/
theorem take_cases {i : Intake} {r : Except Fault Bool} (h : i.take.run p = (r, q)) :
    (r ≠ .ok true ∧ q = p) ∨ (r = .ok true ∧ ∃ d, i.semesters? = some d ∧ p.load d = .ok q) := by
  have refused : (Except.ok false : Except Fault Bool) ≠ .ok true := by simp
  have raised (f : Fault) : (Except.error f : Except Fault Bool) ≠ .ok true := by simp
  cases i with
  | document d =>
    rw [take, run_bind, Edit.run_load] at h
    cases hl : p.load d with
    | ok loaded => rw [hl] at h; cases h; exact .inr ⟨rfl, d, rfl, hl⟩
    | error f => rw [hl] at h; cases h; exact .inl ⟨raised f, rfl⟩
  | exported data =>
    rw [take, run_bind, Edit.run_importText, Plan.importText] at h
    cases hr : readExport data with
    | error f => rw [hr] at h; cases h; exact .inl ⟨refused, rfl⟩
    | ok document =>
      rw [hr] at h
      dsimp only at h
      cases hs : semestersOf? document with
      | none => rw [hs] at h; cases h; exact .inl ⟨refused, rfl⟩
      | some semesters =>
        rw [hs] at h
        dsimp only at h
        cases hl : p.load semesters with
        | ok loaded =>
          rw [hl] at h
          cases h
          exact .inr ⟨rfl, semesters, by simp [semesters?, hr, hs, Except.toOption], hl⟩
        | error f =>
          rw [hl] at h
          dsimp only at h
          cases hf : f.isDataFault <;> rw [hf] at h <;> cases h
          · exact .inl ⟨raised f, rfl⟩
          · exact .inl ⟨refused, rfl⟩

end Intake

/-- Plan data that are not accepted leave the plan as it was. A plan that accepted its data is in order just when the
last record of every semester agrees with its id. -/
theorem intake_inOrder_iff {i : Intake} {r : Except Fault Bool} (h : i.take.run p = (r, q)) :
    (r ≠ .ok true ∧ q = p) ∨ (r = .ok true ∧ (q.InOrder ↔
      ∀ id v, latest Semester.idIn? (some id) i.records = some v → Semester.Consistent v)) := by
  refine (i.take_cases h).imp_right fun ⟨accepted, d, hd, hl⟩ => ⟨accepted, ?_⟩
  obtain ⟨records, hr, -, loaded⟩ := load_latest hl
  have hrecords : i.records = records := by simp [Intake.records, hd, hr, Except.toOption]
  have ids := (load_eq_ok hl).1.ids
  rw [hrecords]
  constructor
  · intro order id v hv
    obtain ⟨s, hs, reads⟩ : ∃ s ∈ q.semesters, Semester.Reads v s := by
      have last := loaded id
      rw [hv] at last
      generalize hs : q.semester? (.int id) = found at last
      cases last with
      | some reads => exact ⟨_, (semester?_some hs).1, reads⟩
    exact reads.ownTerm_iff.1 (order.terms s hs)
  · intro consistent
    refine inOrder_of_terms ids fun s hs => ?_
    obtain ⟨v, hv, reads⟩ : ∃ v, latest Semester.idIn? (some s.id) records = some v ∧ Semester.Reads v s := by
      have last := loaded s.id
      rw [semester?_of_mem ids hs (Json.same_refl _)] at last
      generalize latest Semester.idIn? (some s.id) records = found at last ⊢
      cases last with
      | some reads => exact ⟨_, rfl, reads⟩
    exact reads.ownTerm_iff.2 (consistent _ v hv)

theorem take_exported {data : Json} {accepted : Bool} {log : List String}
    (h : p.importText data = .ok (accepted, log, q)) :
    (Intake.exported data).take.run p = (.ok accepted, q) := by
  rw [Intake.take, run_bind, Edit.run_importText, h]
  rfl

/-- An exported text names a year and a season in one of its records, and the plan that took it in is in order. -/
theorem intake_inOrder_iff_named :
    let text :=
      "\x7b\"semesters\": [\x7b\"id\": 202400\x7d, \x7b\"id\": \"202401\", \"year\": 2024.0, \"season\": \"Spring\"\x7d]\x7d"
    let p : Plan := { owner := some "user-a" }
    ∃ q, (Intake.exported (.str text)).take.run p = (.ok true, q) ∧
      q.semesters.map (·.id) = [202400, 202401] ∧ q.InOrder := by
  intro text p
  obtain ⟨⟨_, log, q⟩, hq, rfl, ids⟩ : ∃ r, p.importText (.str text) = .ok r ∧ r.1 = true ∧
    r.2.2.semesters.map (·.id) = [202400, 202401] := by
    decide +kernel
  have taken := take_exported hq
  have consistent : ∀ v ∈ (Intake.exported (.str text)).records, Semester.Consistent v := by decide +kernel
  obtain ⟨refused, -⟩ | ⟨-, inOrder⟩ := intake_inOrder_iff taken
  · exact absurd rfl refused
  · exact ⟨q, taken, ids, inOrder.2 fun id v hv => consistent v (mem_of_latest hv).1⟩

/-- An exported text names a season that there is not. It is taken in, and then the plan cannot list its semesters. -/
theorem intake_out_of_order :
    let text := "\x7b\"semesters\": [\x7b\"id\": 202400, \"season\": \"Winter\"\x7d]\x7d"
    let p : Plan := { owner := some "user-a" }
    ∃ q, (Intake.exported (.str text)).take.run p = (.ok true, q) ∧ q ≠ p ∧ ¬ q.InOrder ∧
      q.ordered = .error (.value .seasonNotListed) := by
  intro text p
  obtain ⟨⟨_, log, q⟩, hq, rfl, version, undated⟩ : ∃ r, p.importText (.str text) = .ok r ∧
    r.1 = true ∧ r.2.2.version = 1 ∧
      ¬ ∀ s ∈ r.2.2.semesters, s.Dated := by decide +kernel
  refine ⟨q, take_exported hq, fun same => ?_, fun order => undated fun s hs => (order.terms s hs).dated,
    ordered_of_undated undated⟩
  rw [same] at version
  cases version

end Plan
end DegreePlan
