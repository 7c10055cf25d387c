import DegreePlan.Proofs.Plan.Reachable
import DegreePlan.Proofs.Sync.Mirror

/-!
# Plans that can be recovered

A plan that was written down is read back with the same listing. What a plan exports can be read, and the
plan that is read from it can be written down and read back again.
-/

namespace DegreePlan.Sync

open Plan

variable {p q base : Plan} {json : Json}

/-! ## Writing down and reading back -/

/-- The records of a plan that is written down are those of its semesters by time. -/
theorem records_of_toJson (h : p.toJson = .ok json) :
    ∃ records, recordsOf json = .ok records ∧
      List.Forall₂ (fun s v => s.toJson = .ok v) (sorted p.semesters) records := by
  simp only [toJson, bind_eq_ok, pure_eq_ok] at h
  obtain ⟨l, hl, pairs, hp, rfl⟩ := h
  obtain ⟨-, rfl⟩ := ordered_eq_ok.1 hl
  refine ⟨pairs.map (·.2), rfl, List.forall₂_map_right_iff.2 ((mapM_eq_ok.1 hp).imp fun s pair hs => ?_)⟩
  simp only [bind_eq_ok, pure_eq_ok] at hs
  obtain ⟨v, hv, rfl⟩ := hs
  exact hv

/-- Filling in the limits of credits changes no course. -/
theorem entries_limited (p : Plan) : p.limited.entries = p.entries := by
  simp only [Plan.entries, Plan.limited, List.flatMap_map]
  rfl

theorem valid_limited (h : p.Valid) : p.limited.Valid := by
  refine ⟨?_, entries_limited p ▸ h.codes, entries_limited p ▸ h.keys, fun s hs => ?_⟩
  · rw [Plan.limited, List.map_map]
    exact h.ids
  · obtain ⟨t, ht, rfl⟩ := List.mem_map.1 hs
    exact h.held t ht

/-- A plan that is written down can be loaded. -/
theorem load_toJson (hv : p.Valid) (hk : Keyed p) (separate : Separate p) (hr : ∀ s ∈ p.semesters, s.Readable)
    (hj : p.toJson = .ok json) (base : Plan) :
    base.load json =
    .ok { base with semesters := (sorted p.semesters).map fun s : Semester => s.limited.settled }.touch := by
  obtain ⟨records, hrec, hs⟩ := records_of_toJson hj
  have read : List.Forall₂ (fun v s => Semester.ofJson v = .ok s) records
      (((sorted p.semesters).map Semester.limited).map Semester.settled) := by
    rw [List.map_map, List.forall₂_map_right_iff, List.forall₂_iff_get]
    obtain ⟨length, get⟩ := List.forall₂_iff_get.1 hs
    refine ⟨length.symm, fun i hi hi' => ?_⟩
    have mem : (sorted p.semesters).get ⟨i, hi'⟩ ∈ p.semesters := mem_sorted.1 (List.get_mem _ _)
    exact Semester.ofJson_toJson (hr _ mem) (hv.held _ mem) (get i hi' hi)
  -- the limits are filled in first, and then the plan is read back as it is
  rw [Archive.load_settled (valid_limited hv) (fun e he => hk e (entries_limited p ▸ he))
    (by rw [Separate, entries_limited]; exact separate) hrec read
    ((sorted_perm _).map _) base,
    List.map_map]
  rfl

theorem averageOf_settled (es : List Entry) (n : Int) : averageOf (es.map (·.settled n)) = averageOf es := by
  simp only [averageOf, List.filter_map, List.map_map]
  rfl

theorem totalCredits_settled (es : List Entry) (n : Int) : totalCredits (es.map (·.settled n)) = totalCredits es :=
  List.foldl_map

/-- A semester that can be written is read back as one. -/
theorem written_settled {s : Semester} (h : s.Written) : s.settled.Written := by
  obtain ⟨⟨x, average⟩, id, year, total, limit, courses⟩ := Semester.written_iff.1 h
  refine Semester.written_iff.2 ⟨⟨x, (averageOf_settled s.courses s.id).trans average⟩, id, year, ?_, limit, ?_⟩
  · rwa [Semester.total, Semester.settled, totalCredits_settled]
  · refine List.forall_mem_map.2 fun e he => ?_
    have fields := Json.isWritable_obj.1 (courses e he)
    simp only [Entry.toJson, Entry.settled, Json.isWritable_obj, List.forall_mem_cons] at fields ⊢
    obtain ⟨key, code, title, credits, status, grade, -, last⟩ := fields
    exact ⟨key, code, title, credits, status, grade, Json.isWritable_int.2 id, last⟩

/-- What is read back of a plan that can be written can be written. -/
theorem written_read (h : p.Written) (hq : q.semesters = (sorted p.semesters).map Semester.settled) : q.Written := by
  refine written_iff.2 fun s hs => ?_
  obtain ⟨t, ht, rfl⟩ := List.mem_map.1 (hq ▸ hs)
  obtain ⟨dated, written⟩ := written_iff.1 h t (mem_sorted.1 ht)
  exact ⟨dated, written_settled written⟩

/-- A plan that is written down and read back, now and whenever it was. -/
structure Recoverable (p : Plan) : Prop where
  valid : p.Valid
  keyed : Keyed p
  separate : Separate p
  dated : ∀ s ∈ p.semesters, s.Dated
  averaged : Averaged p
  storable : ∀ s ∈ p.semesters, s.Storable

theorem recoverable_empty (owner : Option String) : Recoverable { owner } :=
  ⟨valid_empty owner, nofun, List.nodup_nil, nofun, nofun, nofun⟩

/-- Semesters that are loaded as they are read back make a recoverable plan. -/
theorem recoverable_loaded (load : base.load json = .ok q) {l : List Semester}
    (hq : q.semesters = l.map fun s : Semester => s.limited.settled) (hr : ∀ s ∈ l, s.Readable)
    (dated : ∀ s ∈ l, s.Dated) (averaged : ∀ s ∈ l, ∃ x, s.average = .ok x) : Recoverable q := by
  obtain ⟨valid, -, -, keyed, separate⟩ := load_eq_ok load
  have read {s : Semester} (hs : s ∈ q.semesters) : ∃ t ∈ l, t.limited.settled = s := List.mem_map.1 (hq ▸ hs)
  refine ⟨valid, keyed, separate, fun s hs => ?_, fun s hs => ?_, fun s hs => ?_⟩ <;>
    obtain ⟨t, ht, rfl⟩ := read hs
  · exact dated t ht
  · obtain ⟨x, hx⟩ := averaged t ht
    exact ⟨x, (averageOf_settled t.courses t.id).trans hx⟩
  · exact (hr t ht).storable

/-- What is read back can be written down and read back again. -/
theorem recoverable_read (hv : p.Valid) (hk : Keyed p) (separate : Separate p)
    (hr : ∀ s ∈ p.semesters, s.Readable) (hj : p.toJson = .ok json) (base : Plan) :
    ∃ q, base.load json = .ok q ∧ q.owner = base.owner ∧ Recoverable q ∧
      q.semesters = (sorted p.semesters).map fun s : Semester => s.limited.settled := by
  have load := load_toJson hv hk separate hr hj base
  obtain ⟨dated, averaged⟩ := dated_of_toJson hj
  refine ⟨_, load, rfl, recoverable_loaded load rfl (fun s hs => ?_) (fun s hs => ?_) fun s hs => ?_, rfl⟩
  · exact hr s (mem_sorted.1 hs)
  · exact dated s (mem_sorted.1 hs)
  · exact averaged s (mem_sorted.1 hs)

namespace Recoverable

theorem toJson (h : Recoverable p) : ∃ json, p.toJson = .ok json := toJson_of_dated h.dated h.averaged

/-- A plan is read back with the same listing, and it can be written again if it could be written. -/
theorem recovers (h : Recoverable p) (hj : p.toJson = .ok json) (base : Plan) :
    ∃ q, base.load json = .ok q ∧ q.owner = base.owner ∧ Recoverable q ∧ p.SameListing q ∧
      (p.Written → q.Written) := by
  obtain ⟨q, load, owner, hq, semesters⟩ :=
    recoverable_read h.valid h.keyed h.separate (fun s hs => (h.storable s hs).readable) hj base
  have limits : (sorted p.semesters).map (fun s : Semester => s.limited.settled) =
    (sorted p.semesters).map Semester.settled :=
    List.map_congr_left fun s hs => by rw [(h.storable s (mem_sorted.1 hs)).limited]
  rw [limits] at semesters
  refine ⟨q, load, owner, hq, sameListing_settled h.dated h.valid ?_, fun written => written_read written semesters⟩
  rw [semesters, sorted_map (g := Semester.settled) fun _ _ => rfl, sorted_sorted]

/-- The same semesters make a plan of the same kind. -/
theorem of_perm (h : Recoverable p) (hq : q.semesters.Perm p.semesters) : Recoverable q where
  valid := h.valid.of_perm hq
  keyed e he := h.keyed e ((hq.flatMap_right _).mem_iff.1 he)
  separate := ((hq.flatMap_right _).map _).nodup_iff.2 h.separate
  dated s hs := h.dated s (hq.mem_iff.1 hs)
  averaged s hs := h.averaged s (hq.mem_iff.1 hs)
  storable s hs := h.storable s (hq.mem_iff.1 hs)

/-- Some of the semesters make a plan of the same kind. -/
theorem only (h : Recoverable p) (P : Semester → Bool) : Recoverable (p.only P) where
  valid := h.valid.only P
  keyed e he := h.keyed e ((List.filter_sublist.flatMap _).subset he)
  separate := ((List.filter_sublist.flatMap _).map _).nodup h.separate
  dated s hs := h.dated s (mem_only.1 hs).1
  averaged s hs := h.averaged s (mem_only.1 hs).1
  storable s hs := h.storable s (mem_only.1 hs).1

/-- A mutation keeps a plan recoverable if it keeps the averages in range. -/
theorem mutate {m : Mutation} {e : Effect} (h : Recoverable p) (hp : m.Plain) (ht : m.Legible)
    (hm : m.apply p = .ok (e, q)) (averaged : Averaged q) : Recoverable q :=
  have done := Mutation.done hm
  ⟨(done.made h.valid).valid, (done.keyed h.keyed hp).1, done.separate h.valid h.separate ht.numbers,
    done.shaped.dated h.dated, averaged,
    Deployment.storable_done h.storable h.valid done ht⟩

end Recoverable

/-- A snapshot of a plan that can be recovered. -/
def Taken (s : Snapshot) : Prop := ∃ p, Recoverable p ∧ p.snapshot = .ok s

/-- Going back to a snapshot of a recoverable plan gives one. -/
theorem Taken.restore {s : Snapshot} (h : Taken s) (hq : p.restore s = .ok q) : Recoverable q := by
  obtain ⟨r, hr, hs⟩ := h
  obtain ⟨xs, hx, rfl⟩ := snapshot_eq_ok.1 hs
  obtain ⟨-, rfl⟩ := restore_eq_ok.1 hq
  exact hr.of_perm (ordered_perm hx)

/-! ## Exports -/

/-- What a plan exports, with texts as codes and titles, ids that can be looked up and no two of them the same, and
whole limits of credits. -/
def Exported (data : Json) : Prop :=
  ∃ owner p, Reachable owner p ∧ (∀ s ∈ p.semesters, ∃ n : Int, s.maxCredits = .int n) ∧
    (∀ e ∈ p.entries, e.Textual ∧ e.id.isKey = true) ∧ Separate p ∧ p.toJson = .ok data

/-- What was exported can be loaded, and the plan that is loaded can be recovered. -/
theorem Exported.load {data : Json} (h : Exported data) (base : Plan) :
    ∃ q, base.load data = .ok q ∧ q.owner = base.owner ∧ Recoverable q := by
  obtain ⟨owner, p, hp, limits, entries, separate, hj⟩ := h
  have readable : ∀ s ∈ p.semesters, s.Readable := by
    intro s hs
    obtain ⟨t, ht⟩ := hp.terms s hs
    exact ⟨by rw [← ht, Term.ofId_id]; rfl, limits s hs,
      fun e he => (entries e (mem_entries.2 ⟨s, hs, he⟩)).1⟩
  obtain ⟨q, load, hq, recoverable, -⟩ :=
    recoverable_read hp.valid (fun e he => (entries e he).2) separate readable hj base
  exact ⟨q, load, hq, recoverable⟩

end DegreePlan.Sync
