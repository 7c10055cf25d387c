import DegreePlan.Proofs.Plan.Load
import DegreePlan.Proofs.Sync.Mutation
import DegreePlan.Proofs.Sync.Numbers

/-!
# Sessions with one write at a time

What holds throughout a session in which no write begins before the last one ended: the plan and all
snapshots can be listed, looked up and restored, and what waits can be written.
-/

namespace DegreePlan.Sync

open Plan

/-! ## Plans and batches of a session -/

/-- What the plan of a user is like. -/
structure Fit (user : String) (p : Plan) : Prop where
  owner : p.owner = some user
  valid : p.Valid
  keyed : Keyed p
  dated : ∀ s ∈ p.semesters, s.Dated

variable {user : String} {p q : Plan} {b : Batch}

namespace Fit

theorem ordered (h : Fit user p) : p.ordered = .ok (sorted p.semesters) := ordered_of_dated h.dated

theorem snapshot (h : Fit user p) :
    p.snapshot = .ok { owner := some user, version := p.version, semesters := sorted p.semesters } :=
  snapshot_eq_ok.2 ⟨_, h.ordered, by rw [h.owner]⟩

/-- A mutation that is made keeps a plan fit. -/
theorem mutate {m : Mutation} {e : Effect} (h : Fit user p) (hp : m.Plain) (hm : m.apply p = .ok (e, q)) : Fit user q :=
  have made := (Mutation.done hm).made h.valid
  ⟨made.owner.trans h.owner, made.valid, ((Mutation.done hm).keyed h.keyed hp).1,
    (Mutation.done hm).shaped.dated h.dated⟩

/-- The same semesters make a fit plan. -/
theorem of_perm (h : Fit user p) (hq : q.semesters.Perm p.semesters) (ho : q.owner = some user) : Fit user q where
  owner := ho
  valid := h.valid.of_perm hq
  keyed e he := h.keyed e ((hq.flatMap_right _).mem_iff.1 he)
  dated s hs := h.dated s (hq.mem_iff.1 hs)

end Fit

theorem fit_empty (user : String) : Fit user { owner := some user } := ⟨rfl, valid_empty _, nofun, nofun⟩

/-- What was loaded is fit if it can be listed. -/
theorem fit_load {document : Json} (hp : p.owner = some user) (h : p.load document = .ok q)
    (hd : ∀ s ∈ q.semesters, s.Dated) : Fit user q :=
  have ⟨hv, ho, _, hk, _⟩ := load_eq_ok h
  ⟨ho.trans hp, hv, hk, hd⟩

/-- What a batch of a user is like. -/
structure Batch.Fit (user : String) (b : Batch) : Prop where
  taken : ∃ p, Sync.Fit user p ∧ p.snapshot = .ok b.snapshot
  numbers : ∀ v ∈ b.semesters, ∃ n : Int, v.same (.int n) = true
  deleted : ∀ v ∈ b.deleted, v.isKey = true

namespace Batch.Fit

/-- Going back to the snapshot of a batch gives a fit plan. -/
theorem restore (h : b.Fit user) (hp : Sync.Fit user p) :
    p.restore b.snapshot = .ok { p with semesters := b.snapshot.semesters }.touch ∧
      Sync.Fit user { p with semesters := b.snapshot.semesters }.touch ∧
      sorted b.snapshot.semesters = b.snapshot.semesters := by
  obtain ⟨q, hq, hs⟩ := h.taken
  rw [hq.snapshot] at hs
  rw [← Except.ok.inj hs]
  exact ⟨by simp [Plan.restore, hp.owner], hq.of_perm (sorted_perm _) hp.owner, sorted_sorted _⟩

theorem push {m : Mutation} {e : Effect} (h : b.Fit user) (hm : m.apply p = .ok (e, q)) (hp : Sync.Fit user p)
    (hl : m.Plain) : (b.push m e).Fit user := by
  have made := (Mutation.done hm).made hp.valid
  refine ⟨h.taken, fun v hv => ?_, fun v hv => ?_⟩
  · rcases List.mem_append.1 (Json.mem_of_mem_distinct hv) with hv | hv
    · exact h.numbers v hv
    · obtain ⟨s, -, hs⟩ := made.named v hv
      exact ⟨s.id, hs⟩
  · rcases List.mem_append.1 hv with hv | hv
    · exact h.deleted v hv
    · exact ((Mutation.done hm).keyed hp.keyed hl).2 v hv

theorem prepend {earlier : Batch} (h : b.Fit user) (he : earlier.Fit user) : (b.prepend earlier).Fit user := by
  refine ⟨he.taken, fun v hv => ?_, fun v hv => ?_⟩
  · exact (List.mem_append.1 (Json.mem_of_mem_distinct hv)).elim (h.numbers v) (he.numbers v)
  · exact (List.mem_append.1 hv).elim (h.deleted v) (he.deleted v)

/-- An empty batch at a fit plan. -/
theorem new {snapshot : Snapshot} (hp : Sync.Fit user p) (hs : p.snapshot = .ok snapshot) (serial epoch : Nat)
    (state : SyncState) :
    ({ serial, snapshot, epoch, state } : Batch).Fit user := ⟨⟨p, hp, hs⟩, nofun, nofun⟩

theorem sortedSemesters (h : b.Fit user) : ∃ ids, b.sortedSemesters = .ok ids ∧ ids.Perm b.semesters :=
  Json.sortBy_ok h.numbers

end Batch.Fit

/-! ## What is written -/

/-- The averages of all semesters are in range. -/
def Averaged (p : Plan) : Prop := ∀ s ∈ p.semesters, ∃ x, s.average = .ok x

instance (p : Plan) : Decidable (Averaged p) :=
  decidable_of_iff (p.semesters.all (·.average.toOption.isSome) = true) <| by
    simp only [List.all_eq_true, Averaged]
    refine forall₂_congr fun s _ => ?_
    cases s.average <;> simp [Except.toOption]

theorem toJson_ok {s : Semester} {x : Float} (h : s.average = .ok x) : ∃ json, s.toJson = .ok json := by
  simp [Semester.toJson, h, pure, Except.pure]

theorem toJson_of_dated (hd : ∀ s ∈ p.semesters, s.Dated) (ha : Averaged p) : ∃ json, p.toJson = .ok json := by
  obtain ⟨records, hr⟩ : ∃ records, (sorted p.semesters).mapM (fun s => do return (toString s.id, ← s.toJson) :
      Semester → Except Fault (String × Json)) = .ok records := by
    choose! x hx using ha
    choose! json hj using fun s hs => toJson_ok (hx s hs)
    exact ⟨_, mapM_ok (g := fun s => (toString s.id, json s)) fun s hs => by rw [hj s (mem_sorted.1 hs)]; rfl⟩
  exact ⟨_, by rw [Plan.toJson, ordered_of_dated hd, ok_bind, hr]; rfl⟩

theorem Fit.toJson (h : Fit user p) (ha : Averaged p) : ∃ json, p.toJson = .ok json := toJson_of_dated h.dated ha

theorem dated_of_toJson {json : Json} (h : p.toJson = .ok json) : (∀ s ∈ p.semesters, s.Dated) ∧ Averaged p := by
  simp only [Plan.toJson, bind_eq_ok, pure_eq_ok] at h
  obtain ⟨l, hl, records, hr, -⟩ := h
  obtain ⟨hd, rfl⟩ := ordered_eq_ok.1 hl
  refine ⟨hd, fun s hs => ?_⟩
  obtain ⟨record, -, hrecord⟩ := ok_of_mapM hr (mem_sorted.2 hs)
  simp only [Semester.toJson, bind_eq_ok] at hrecord
  obtain ⟨_, ⟨x, hx, -⟩, -⟩ := hrecord
  exact ⟨x, hx⟩

/-- The records of just the semesters that a batch names are written. -/
theorem payloads_ok (h : Fit user p) (hb : b.Fit user) (ha : Averaged p) :
    ∃ ps, Coordinator.payloads p b = .ok ps ∧
      ∀ json, json ∈ ps ↔ ∃ s ∈ p.semesters, (Json.int s.id).isIn b.semesters = true ∧
        s.toJson = .ok json := by
  obtain ⟨ids, hi, hperm⟩ := hb.sortedSemesters
  choose! x hx using ha
  choose! record hr using fun s hs => toJson_ok (hx s hs)
  refine ⟨ids.filterMap fun id => (p.semester? id).map record, ?_, fun json => ?_⟩
  · rw [Coordinator.payloads, hi, ok_bind]
    refine filterMapM_ok fun id _ => ?_
    cases hs : p.semester? id with
    | none => rfl
    | some s =>
      simp only [hr s (semester?_some hs).1]
      rfl
  · simp only [List.mem_filterMap, Option.map_eq_some_iff]
    constructor
    · rintro ⟨id, hid, s, hs, rfl⟩
      obtain ⟨hm, hsame⟩ := semester?_some hs
      exact ⟨s, hm, isIn_of_same (hperm.mem_iff.1 hid) hsame, hr s hm⟩
    · rintro ⟨s, hm, hin, hj⟩
      obtain ⟨v, hv, hsame⟩ := List.any_eq_true.1 hin
      refine ⟨v, hperm.mem_iff.2 hv, s, semester?_of_mem h.valid.ids hm (Json.same_symm hsame), ?_⟩
      rw [hr s hm] at hj
      exact Except.ok.inj hj

/-- Only ids that are gone from the plan are deleted. -/
theorem goneIds_ok (h : Fit user p) (hb : b.Fit user) :
    ∃ gone, Coordinator.goneIds p b = .ok gone ∧ ∀ v ∈ gone, v.isKey = true ∧
      ∀ e ∈ p.entries, e.id.same v = false := by
  have hperm : (sorted p.semesters).flatMap (·.courses) |>.Perm p.entries := (sorted_perm _).flatMap_right _
  have live : (((sorted p.semesters).flatMap (·.courses)).map (·.id)).forM Json.checkKey = .ok () :=
    Json.forM_checkKey.2 fun v hv => by
      obtain ⟨e, he, rfl⟩ := List.mem_map.1 hv
      exact h.keyed e (hperm.mem_iff.1 he)
  have gone : b.deleted.forM Json.checkKey = .ok () := Json.forM_checkKey.2 hb.deleted
  refine
    ⟨_, by simp only [Coordinator.goneIds, courses, h.ordered, ok_bind, pure, Except.pure, live, gone]; rfl,
      fun v hv => ?_⟩
  obtain ⟨hv, hn⟩ := List.mem_filter.1 hv
  refine ⟨hb.deleted v (Json.mem_of_mem_distinct hv), fun e he => ?_⟩
  rw [Bool.not_eq_true', Json.isIn_eq_false] at hn
  rw [← Bool.not_eq_true, Json.same_iff]
  exact fun hs => hn (hs ▸ List.mem_map_of_mem (List.mem_map_of_mem (hperm.mem_iff.2 he)))

/-- A flush deletes no course of the plan. -/
theorem isIn_goneIds (h : Fit user p) (hb : b.Fit user) {gone : List Json} (hg : Coordinator.goneIds p b = .ok gone) :
    ∀ e ∈ p.entries, e.id.isIn gone = false := by
  intro e he
  obtain ⟨gone', hg', deleted⟩ := goneIds_ok h hb
  obtain rfl : gone' = gone := Except.ok.inj (hg'.symm.trans hg)
  rw [Json.isIn, List.any_eq_false]
  intro v hv
  simp [(deleted v hv).2 e he]

/-- A flush writes the records of the semesters that its batch names. -/
theorem mem_payloads_iff (h : Fit user p) (hb : b.Fit user) (ha : Averaged p) {ps : List Json}
    (hp : Coordinator.payloads p b = .ok ps) {json : Json} :
    json ∈ ps ↔ ∃ s ∈ p.semesters, (Json.int s.id).isIn b.semesters = true ∧ s.toJson = .ok json := by
  obtain ⟨ps', hp', written⟩ := payloads_ok h hb ha
  obtain rfl : ps' = ps := Except.ok.inj (hp'.symm.trans hp)
  exact written json

/-! ## Operations of a session -/

namespace Coordinator

/-- The session goes on. -/
structure Stays (c d : Coordinator) : Prop where
  backend : d.backend = c.backend
  epoch : d.epoch = c.epoch
  fresh : c.fresh ≤ d.fresh
  cache : c.cache = none → d.cache = none

variable {c d : Coordinator}

theorem fit_closed (c : Coordinator) (h : b.Fit user) : (c.closed b).Fit user := ⟨h.taken, h.numbers, h.deleted⟩

theorem Stays.refl (c : Coordinator) : Stays c c := ⟨rfl, rfl, Nat.le_refl _, id⟩

@[simp] theorem restartTimer_plan (c : Coordinator) : c.restartTimer.plan = c.plan := stopTimer_plan c

@[simp] theorem restartTimer_queued (c : Coordinator) : c.restartTimer.queued = c.queued := stopTimer_queued c

@[simp] theorem restartTimer_inFlight (c : Coordinator) : c.restartTimer.inFlight = c.inFlight := stopTimer_inFlight c

theorem stays_stopTimer (c : Coordinator) : Stays c c.stopTimer := ⟨by simp, by simp, by simp, by simp⟩

theorem stays_timers (c : Coordinator) (timers : List Timer) : Stays c { c with timers } :=
  ⟨rfl, rfl, Nat.le_refl _, id⟩

theorem stays_restartTimer (c : Coordinator) : Stays c c.restartTimer :=
  ⟨stopTimer_backend c, stopTimer_epoch c, by simp [restartTimer], by simp [restartTimer]⟩

theorem Stays.trans {e : Coordinator} (h : Stays c d) (k : Stays d e) : Stays c e :=
  ⟨k.backend.trans h.backend, k.epoch.trans h.epoch, Nat.le_trans h.fresh k.fresh, fun hc => k.cache (h.cache hc)⟩

theorem enqueue_frame (c : Coordinator) (snapshot : Snapshot) (m : Mutation) (e : Effect) :
    Stays c (c.enqueue snapshot m e) ∧ (c.enqueue snapshot m e).inFlight = c.inFlight ∧
      (c.enqueue snapshot m e).plan = c.plan ∧ ∃ b, (c.enqueue snapshot m e).queued = some (b.push m e) ∧
        (c.queued = some b ∨ c.queued = none ∧ b = { serial := c.fresh, snapshot, epoch := c.epoch }) := by
  unfold enqueue
  split
  · next b hb => exact ⟨⟨rfl, rfl, Nat.le_refl _, id⟩, rfl, rfl, b, rfl, .inl hb⟩
  · next hn => exact ⟨⟨rfl, rfl, Nat.le_succ _, id⟩, rfl, rfl, _, rfl, .inr ⟨hn, rfl⟩⟩

/-- A mutation leaves plan and batch as they are, or it is made and stands at the end of the batch. -/
theorem apply_made (c : Coordinator) (m : Mutation) :
    let d := ((apply m).run c).2
    Stays c d ∧ d.inFlight = c.inFlight ∧ ((d.plan = c.plan ∧ d.queued = c.queued) ∨
      ∃ snapshot e b, c.plan.snapshot = .ok snapshot ∧ m.apply c.plan = .ok (e, d.plan) ∧ e.isEmpty = false ∧
        d.queued = some (b.push m e) ∧
        (c.queued = some b ∨ c.queued = none ∧ b = { serial := c.fresh, snapshot, epoch := c.epoch })) := by
  rcases c.apply_cases m with ⟨f, state, h⟩ | ⟨e, plan, state, hm, he, h⟩ |
    ⟨snapshot, e, plan, -, hs, hm, he, r, cache, log, state, h, hn⟩ <;> rw [h]
  · exact ⟨⟨rfl, rfl, Nat.le_refl _, id⟩, rfl, .inl ⟨rfl, rfl⟩⟩
  · exact ⟨⟨rfl, rfl, Nat.le_refl _, id⟩, rfl, .inl ⟨(Mutation.done hm).eq_of_isEmpty he, rfl⟩⟩
  · obtain ⟨hstays, hflight, hplan, b, hq, hb⟩ := enqueue_frame { c with state := .applying, plan } snapshot m e
    obtain ⟨h1, h2, h3, -⟩ := hstays.trans (stays_restartTimer _)
    refine ⟨⟨h1, h2, h3, fun none => hn.trans (savedCache_none _ none)⟩,
      (restartTimer_inFlight _).trans hflight, .inr ⟨snapshot, e, b, hs, ?_, he, ?_, hb⟩⟩
    · rw [hm]; exact congrArg (fun q => Except.ok (e, q)) ((restartTimer_plan _).trans hplan).symm
    · exact (restartTimer_queued _).trans hq

/-- A batch stays listed when another one is dropped. -/
theorem mem_dropBatch {x b : Batch} {l rest : List Batch} (h : dropBatch? b l = some rest) (hx : x ∈ l)
    (hs : x.serial ≠ b.serial) (he : x.epoch ≠ b.epoch) : x ∈ rest := by
  induction l generalizing rest with
  | nil => cases h
  | cons y l ih =>
    unfold dropBatch? at h
    split at h
    · next hy =>
      cases h
      refine (List.mem_cons.1 hx).resolve_left ?_
      rintro rfl
      simp [hs, he, Batch.same] at hy
    · obtain ⟨r, hr, rfl⟩ := Option.map_eq_some_iff.1 h
      rcases List.mem_cons.1 hx with rfl | hx
      · simp
      · exact List.mem_cons_of_mem y (ih hr hx)

theorem dropBatch_listed {b : Batch} {l : List Batch} (h : b ∈ l) : ∃ rest, dropBatch? b l = some rest := by
  induction l with
  | nil => cases h
  | cons y l ih =>
    unfold dropBatch?
    split
    · exact ⟨l, rfl⟩
    · next hy =>
      rcases List.mem_cons.1 h with rfl | h
      · simp at hy
      · obtain ⟨rest, hr⟩ := ih h
        exact ⟨y :: rest, by rw [hr]; rfl⟩

/-- The end of a late write leaves the session as it is. -/
theorem finishFlush_late {b : Batch} (h : b.epoch < c.epoch) (cause : Option String) :
    let d := ((finishFlush b cause).run c).2
    Stays c d ∧ d.plan = c.plan ∧ d.queued = c.queued ∧
      ∀ x ∈ c.inFlight, b.serial ≠ x.serial → x.epoch = c.epoch → x ∈ d.inFlight := by
  have hne : b.epoch ≠ c.epoch := Nat.ne_of_lt h
  rcases c.finishFlush_cases b cause with ⟨-, f, hr⟩ |
    ⟨rest, hd, ⟨-, log, state, hr⟩ | ⟨he, -⟩ | ⟨he, -⟩ | ⟨he, -⟩⟩
  · rw [hr]
    exact ⟨.refl c, rfl, rfl, fun x hx _ _ => hx⟩
  · rw [hr]
    exact ⟨⟨rfl, rfl, Nat.le_refl _, id⟩, rfl, rfl, fun x hx hs he =>
      mem_dropBatch hd hx hs.symm (by rw [he]; exact hne.symm)⟩
  · exact absurd he hne
  · exact absurd he hne
  · exact absurd he hne

/-- A write that succeeded leaves plan and batch as they are. -/
theorem finishFlush_succeeded (c : Coordinator) (b : Batch) :
    let d := ((finishFlush b none).run c).2
    Stays c d ∧ d.plan = c.plan ∧ d.queued = c.queued := by
  rcases c.finishFlush_cases b none with ⟨-, f, hr⟩ |
    ⟨rest, -, ⟨-, log, state, hr⟩ | ⟨-, -, state, hr⟩ | ⟨-, -, cause, ho, -⟩ | ⟨-, -, cause, ho, -⟩⟩
  · rw [hr]
    exact ⟨.refl c, rfl, rfl⟩
  · rw [hr]
    exact ⟨⟨rfl, rfl, Nat.le_refl _, id⟩, rfl, rfl⟩
  · rw [hr]
    exact ⟨⟨rfl, rfl, Nat.le_refl _, id⟩, rfl, rfl⟩
  · cases ho
  · cases ho

theorem requeue_frame (c : Coordinator) (b : Batch) :
    Stays c (c.requeue b) ∧ (c.requeue b).plan = c.plan ∧ ∃ b₀, (c.requeue b).queued = some (b₀.prepend b) ∧
      (c.queued = some b₀ ∨
        c.queued = none ∧
        b₀ = { serial := c.fresh, snapshot := b.snapshot, epoch := c.epoch, state := .pending }) := by
  have joined : Stays c (c.joined b) ∧ (c.joined b).plan = c.plan ∧
    ∃ b₀, (c.joined b).queued = some (b₀.prepend b) ∧
      (c.queued = some b₀ ∨
        c.queued = none ∧
        b₀ = { serial := c.fresh, snapshot := b.snapshot, epoch := c.epoch, state := .pending }) := by
    unfold Coordinator.joined
    split
    · next b₀ hb => exact ⟨⟨rfl, rfl, Nat.le_refl _, id⟩, rfl, b₀, rfl, .inl hb⟩
    · next hn => exact ⟨⟨rfl, rfl, Nat.le_succ _, id⟩, rfl, _, rfl, .inr ⟨hn, rfl⟩⟩
  obtain ⟨hstays, hplan, hq⟩ := joined
  rw [requeue_eq, restartTimer_plan, restartTimer_queued]
  exact ⟨hstays.trans (stays_restartTimer _), hplan, hq⟩

/-- A write of the session commits, or fails and is put in front of what waits, or fails and takes the
plan back. -/
theorem finishFlush_own {b : Batch} (hl : b ∈ c.inFlight) (he : b.epoch = c.epoch) (hb : b.Fit user)
    (hp : Fit user c.plan) (outcome : Option String) :
    let r := (finishFlush b outcome).run c
    Stays c r.2 ∧
    ((outcome = none ∧ r.1 = .ok { state := .committed } ∧ r.2.plan = c.plan ∧ r.2.queued = c.queued) ∨
    (outcome.isSome ∧ b.closedAt ≠ some c.plan.version ∧ r.1 = .ok { state := .pending } ∧ r.2.plan = c.plan ∧
      ∃ b₀, r.2.queued = some (b₀.prepend b) ∧ (c.queued = some b₀ ∨
        c.queued = none ∧
        b₀ = { serial := c.fresh, snapshot := b.snapshot, epoch := c.epoch, state := .pending })) ∨
    (outcome.isSome ∧ b.closedAt = some c.plan.version ∧
      r.2.plan = { c.plan with semesters := b.snapshot.semesters }.touch ∧
      r.2.queued = c.queued ∧ (∀ x, r.1 = .ok x → x.state = .rolledBack) ∧
      (c.Saves r.2.plan → ∃ x, r.1 = .ok x))) := by
  obtain ⟨ids, hids, -⟩ := hb.sortedSemesters
  rcases c.finishFlush_cases b outcome with ⟨hn, -⟩ | ⟨rest, -, ⟨hne, -⟩ | ⟨-, ho, state, hr⟩ |
    ⟨-, hv, cause, ho, ⟨f, hs, -⟩ | ⟨log, hr⟩⟩ |
    ⟨-, hv, cause, ho, ⟨f, hf, -⟩ |
      ⟨plan, hf, r, cache, log, lastFailure, inFlight, lastOutcome, state, hr, -, hx, hn, hinges⟩⟩⟩
  · obtain ⟨rest, hr⟩ := dropBatch_listed hl
    rw [hn] at hr; cases hr
  · exact absurd he hne
  · rw [hr]
    exact ⟨⟨rfl, rfl, Nat.le_refl _, id⟩, .inl ⟨ho, rfl, rfl, rfl⟩⟩
  · rw [hids] at hs; cases hs
  · rw [hr]
    obtain ⟨⟨h1, h2, h3, h4⟩, hplan, b₀, hq, hb₀⟩ :=
      requeue_frame ({ c with inFlight := rest, log }.mark b.serial .pending) b
    exact ⟨⟨h1, h2, h3, h4⟩, .inr (.inl ⟨by rw [ho]; rfl, hv, rfl, hplan, b₀, hq, hb₀⟩)⟩
  · rw [(hb.restore hp).1] at hf; cases hf
  · rw [(hb.restore hp).1] at hf
    cases hf
    rw [hr]
    exact ⟨⟨rfl, rfl, Nat.le_refl _, fun none => hn.trans (savedCache_none _ none)⟩,
      .inr (.inr ⟨by rw [ho]; rfl, hv, rfl, rfl, hx,
      (hinges ids hids).ok⟩)⟩

/-- A flush of a fit session takes the waiting batch out and says what to write. -/
theorem beginFlush_fit (hp : Fit user c.plan) (hq : ∀ b ∈ c.queued, b.Fit user)
    (ha : c.queued.isSome → Averaged c.plan) :
    (c.queued = none ∧ beginFlush.run c = (.ok none, c.stopTimer)) ∨
    ∃ b ps gone, c.queued = some b ∧ payloads c.plan (c.closed b) = .ok ps ∧
      goneIds c.plan (c.closed b) = .ok gone ∧
      beginFlush.run c = (.ok (some (c.closed b, { backend := c.backend, deleted := gone, payloads := ps })),
        { c.stopTimer with queued := none, inFlight := c.inFlight ++ [c.closed b], state := .pending }) := by
  rcases c.beginFlush_cases with h | ⟨b, hb, ⟨f, -, hfault⟩ | ⟨ps, gone, h⟩⟩
  · exact .inl h
  · have hf := c.fit_closed (hq b hb)
    obtain ⟨ps, hps, -⟩ := payloads_ok hp hf (ha (by rw [hb]; rfl))
    obtain ⟨gone, hgone, -⟩ := goneIds_ok hp hf
    exact absurd hgone (hfault ps gone hps)
  · exact .inr ⟨b, ps, gone, hb, h⟩

end Coordinator

/-! ## Worlds -/

/-- What the write of a session is like. Batches of the session have numbers from `first` on. -/
structure Flight.Fit (user : String) (first : Nat) (c : Coordinator) (f : Flight) : Prop where
  batch : f.batch.Fit user
  plan : Sync.Fit user f.plan
  listed : f.batch ∈ c.inFlight
  own : first ≤ f.batch.serial
  epoch : f.batch.epoch = c.epoch
  closed : f.batch.closedAt = some f.plan.version
  before : f.plan.version ≤ c.plan.version

/-- A session of a user that writes one batch at a time. -/
structure World.Orderly (user : String) (first : Nat) (w : World) : Prop where
  plan : Fit user w.coordinator.plan
  fresh : first ≤ w.coordinator.fresh
  queued : ∀ b ∈ w.coordinator.queued, b.Fit user ∧ first ≤ b.serial ∧ b.epoch = w.coordinator.epoch
  single : w.flights.length ≤ 1
  flights : ∀ f ∈ w.flights, f.Fit user first w.coordinator
  late : ∀ f ∈ w.late, f.batch.serial < first ∧ f.batch.epoch < w.coordinator.epoch

/-- A step that the session allows: ids of new courses can be looked up, and a write begins only when
the last one has ended, with averages in range. -/
def Act.Allowed (w : World) : Act → Prop
  | .mutate m => m.Plain
  | .retry failure => ∀ m ∈ failure.mutations, m.Plain
  | .flush | .expire => w.coordinator.queued.isSome → w.flights = [] ∧ Averaged w.coordinator.plan
  | _ => True

instance (w : World) : (a : Act) → Decidable (a.Allowed w)
  | .mutate m => inferInstanceAs (Decidable m.Plain)
  | .retry failure => inferInstanceAs (Decidable (∀ m ∈ failure.mutations, m.Plain))
  | .flush | .expire =>
    inferInstanceAs (Decidable (w.coordinator.queued.isSome → w.flights = [] ∧ Averaged w.coordinator.plan))
  | .reply .. | .finish _ | .close | .listen _ | .unlisten _ => instDecidableTrue

/-- Steps that neither change the plan nor write. -/
def Act.Still : Act → Prop
  | .close | .listen _ | .unlisten _ => True
  | _ => False

namespace World

open Coordinator

variable {first : Nat} {w : World}

/-- The coordinator went on while the writes stayed as they were. -/
theorem Orderly.go (h : w.Orderly user first) {d : Coordinator} (stays : Stays w.coordinator d) (plan : Fit user d.plan)
    (version : w.coordinator.plan.version ≤ d.plan.version)
    (listed : ∀ x ∈ w.coordinator.inFlight, first ≤ x.serial → x.epoch = w.coordinator.epoch →
      x ∈ d.inFlight)
    (queued : ∀ b ∈ d.queued, b.Fit user ∧ first ≤ b.serial ∧ b.epoch = d.epoch) :
    ({ w with coordinator := d } : World).Orderly user first where
  plan := plan
  fresh := Nat.le_trans h.fresh stays.fresh
  queued := queued
  single := h.single
  flights f hf :=
    have hw := h.flights f hf
    { hw with
      listed := listed _ hw.listed hw.own hw.epoch
      epoch := hw.epoch.trans stays.epoch.symm
      before := Nat.le_trans hw.before version }
  late f hf := by rw [stays.epoch]; exact h.late f hf

/-- The same plan and the same batch. -/
theorem Orderly.rest (h : w.Orderly user first) {d : Coordinator} (stays : Stays w.coordinator d)
    (plan : d.plan = w.coordinator.plan) (queued : d.queued = w.coordinator.queued)
    (listed : ∀ x ∈ w.coordinator.inFlight, first ≤ x.serial → x.epoch = w.coordinator.epoch →
      x ∈ d.inFlight) :
    ({ w with coordinator := d } : World).Orderly user first :=
  h.go stays (plan ▸ h.plan) (Nat.le_of_eq (by rw [plan])) listed fun b hb => by
    rw [queued] at hb; rw [stays.epoch]; exact h.queued b hb

theorem version_le {m : Mutation} {e : Effect} (hm : m.apply p = .ok (e, q)) : p.version ≤ q.version := by
  rcases (Mutation.done hm).version_cases with ⟨rfl, -⟩ | ⟨hv, -⟩
  · exact Nat.le_refl _
  · rw [hv]; exact Nat.le_succ _

theorem Orderly.apply (h : w.Orderly user first) {m : Mutation} (hl : m.Plain) :
    ({ w with coordinator := ((apply m).run w.coordinator).2 } : World).Orderly user first := by
  obtain ⟨stays, hi, ⟨hp, hq⟩ | ⟨snapshot, e, b, hs, hm, -, hq, hb⟩⟩ := w.coordinator.apply_made m
  · exact h.rest stays hp hq fun x hx _ _ => by rw [hi]; exact hx
  refine h.go stays (h.plan.mutate hl hm) (version_le hm) (fun x hx _ _ => by rw [hi]; exact hx) fun b' hb' => ?_
  rw [hq] at hb'
  cases hb'
  have start : b.Fit user ∧ first ≤ b.serial ∧ b.epoch = w.coordinator.epoch := by
    rcases hb with hb | ⟨-, rfl⟩
    · exact h.queued b hb
    · exact ⟨.new h.plan hs _ _ _, h.fresh, rfl⟩
  exact ⟨start.1.push hm h.plan hl, start.2.1, start.2.2.trans stays.epoch.symm⟩

/-- A retry keeps what the mutations of the failure keep one by one. -/
theorem retry_induction {P : World → Prop} {failure : SyncFailure}
    (step : ∀ c, ∀ m ∈ failure.mutations, P { w with coordinator := c } →
      P { w with coordinator := ((Coordinator.apply m).run c).2 }) (h : P w) :
    P { w with coordinator := ((Coordinator.retry failure).run w.coordinator).2 } :=
  retry_keeps (P := fun c => P { w with coordinator := c }) (fun m hm c hc => step c m hm hc) w.coordinator h

/-- A launch of a session finds nothing to write, or takes the waiting batch out. -/
theorem Orderly.launch_cases (h : w.Orderly user first)
    (hl : w.coordinator.queued.isSome → w.flights = [] ∧ Averaged w.coordinator.plan) :
    (w.coordinator.queued = none ∧ w.launch = ({ w with coordinator := w.coordinator.stopTimer }, {})) ∨
    ∃ b ps gone, w.coordinator.queued = some b ∧ w.flights = [] ∧ Averaged w.coordinator.plan ∧
      payloads w.coordinator.plan (w.coordinator.closed b) = .ok ps ∧
      goneIds w.coordinator.plan (w.coordinator.closed b) = .ok gone ∧
      ∃ f, f = Flight.start w.coordinator.plan (w.coordinator.closed b)
          { backend := w.coordinator.backend, deleted := gone, payloads := ps } ∧
        w.launch = ({ w with
          coordinator := { w.coordinator.stopTimer with
            queued := none, inFlight := w.coordinator.inFlight ++ [w.coordinator.closed b], state := .pending }
          flights := [f] }, { call := f.call? }) := by
  rcases beginFlush_fit h.plan (fun b hb => (h.queued b hb).1) (fun hs => (hl hs).2) with
    ⟨hq, hr⟩ | ⟨b, ps, gone, hq, hps, hgone, hr⟩
  · exact .inl ⟨hq, by simp only [launch, hr]⟩
  · obtain ⟨hf, ha⟩ := hl (by rw [hq]; rfl)
    exact .inr ⟨b, ps, gone, hq, hf, ha, hps, hgone, _, rfl,
      by simp only [launch, hr, hf, List.nil_append, stopTimer_plan]⟩

theorem Orderly.launch (h : w.Orderly user first)
    (hl : w.coordinator.queued.isSome → w.flights = [] ∧ Averaged w.coordinator.plan) :
    w.launch.1.Orderly user first := by
  rcases h.launch_cases hl with ⟨hq, hr⟩ | ⟨b, ps, gone, hq, -, -, -, -, f, hf, hr⟩ <;> rw [hr]
  · exact h.rest (stays_stopTimer _) (by simp) (by simp) (by simp +contextual)
  · obtain ⟨hfit, hserial, hepoch⟩ := h.queued b hq
    have hbatch : f.batch = w.coordinator.closed b := by rw [hf, Flight.start_batch]
    have hplan : f.plan = w.coordinator.plan := by rw [hf, Flight.start_plan]
    refine ⟨by simpa using h.plan, by simpa using h.fresh, nofun, Nat.le_refl _, fun g hg => ?_, fun g hg => ?_⟩
    · rw [List.mem_singleton.1 hg]
      exact { batch := hbatch ▸ fit_closed _ hfit, plan := hplan ▸ h.plan, listed := by simp [hbatch]
              own := hbatch ▸ hserial, epoch := by rw [hbatch, stopTimer_epoch]; exact hepoch
              closed := by rw [hbatch, hplan]; rfl, before := Nat.le_of_eq (by rw [hplan, stopTimer_plan]) }
    · rw [stopTimer_epoch]; exact h.late g hg

theorem Orderly.reply (h : w.Orderly user first) (i : Nat) (r : Reply) :
    ({ w with flights := (answered w.flights i r).1 } : World).Orderly user first where
  plan := h.plan
  fresh := h.fresh
  queued := h.queued
  single := by
    unfold answered
    split
    · exact h.single
    · simpa using h.single
  flights f hf := by
    obtain ⟨g, hg, hb, hp, -⟩ := mem_answered hf
    have hw := h.flights g hg
    exact { batch := hb ▸ hw.batch, plan := hp ▸ hw.plan, listed := hb ▸ hw.listed, own := hb ▸ hw.own
            epoch := hb ▸ hw.epoch, closed := hb ▸ hp ▸ hw.closed, before := hp ▸ hw.before }
  late := h.late

theorem answered_eq_nil {fs : List Flight} {i : Nat} {r : Reply} (h : (answered fs i r).1 = []) : fs = [] := by
  unfold answered at h
  split at h
  · exact h
  · exact (List.set_eq_nil_iff _ _).1 h

/-- A write of the session is the only one. -/
theorem Orderly.only (h : w.Orderly user first) {i : Nat} {f : Flight} (hf : w.flights[i]? = some f) :
    w.flights = [f] ∧ i = 0 := by
  obtain ⟨hi, hget⟩ := List.getElem?_eq_some_iff.1 hf
  have hlen := h.single
  obtain ⟨g, hg⟩ := List.length_eq_one_iff.1 (show w.flights.length = 1 by omega)
  have hzero : i = 0 := by omega
  subst hzero
  simp only [hg, List.getElem_cons_zero] at hget
  exact ⟨hget ▸ hg, rfl⟩

theorem Orderly.ready (h : w.Orderly user first) {i : Nat} {f : Flight} (hf : ready? w.flights i = some f) :
    w.flights = [f] ∧ i = 0 ∧ f.left = [] := by
  obtain ⟨hf, hl⟩ := Option.filter_eq_some_iff.1 hf
  obtain ⟨hflights, hi⟩ := h.only hf
  exact ⟨hflights, hi, List.isEmpty_iff.1 hl⟩

/-- The end of the write of a session: it commits, or it fails and is put in front of what waits, or it
fails and takes the plan back. -/
theorem Orderly.finish_cases (h : w.Orderly user first) {f : Flight} (hf : w.flights = [f]) :
    let r := (finishFlush f.batch f.cause).run w.coordinator
    let c := w.coordinator
    Stays c r.2 ∧
    ((f.cause = none ∧ r.1 = .ok { state := .committed } ∧ r.2.plan = c.plan ∧ r.2.queued = c.queued) ∨
    (f.cause.isSome ∧ f.plan.version < c.plan.version ∧ r.1 = .ok { state := .pending } ∧ r.2.plan = c.plan ∧
      ∃ b₀, r.2.queued = some (b₀.prepend f.batch) ∧ (c.queued = some b₀ ∨
        c.queued = none ∧
        b₀ = { serial := c.fresh, snapshot := f.batch.snapshot, epoch := c.epoch, state := .pending })) ∨
    (f.cause.isSome ∧ f.plan.version = c.plan.version ∧
      r.2.plan = { c.plan with semesters := f.batch.snapshot.semesters }.touch ∧
      r.2.queued = c.queued ∧ (∀ x, r.1 = .ok x → x.state = .rolledBack) ∧
      (c.Saves r.2.plan → ∃ x, r.1 = .ok x))) := by
  have hw := h.flights f (by simp [hf])
  obtain ⟨hs, hc⟩ := finishFlush_own hw.listed hw.epoch hw.batch h.plan f.cause
  refine ⟨hs, ?_⟩
  rw [hw.closed] at hc
  rcases hc with hc | ⟨ho, hv, hc⟩ | ⟨ho, hv, hc⟩
  · exact .inl hc
  · exact .inr (.inl ⟨ho, Nat.lt_of_le_of_ne hw.before fun he => hv (congrArg some he), hc⟩)
  · exact .inr (.inr ⟨ho, Option.some.inj hv, hc⟩)

/-- The session after its write ended. -/
theorem Orderly.alone (h : w.Orderly user first) {d : Coordinator} (stays : Stays w.coordinator d)
    (plan : Fit user d.plan)
    (queued : ∀ b ∈ d.queued, b.Fit user ∧ first ≤ b.serial ∧ b.epoch = w.coordinator.epoch) :
    ({ w with coordinator := d, flights := [] } : World).Orderly user first where
  plan := plan
  fresh := Nat.le_trans h.fresh stays.fresh
  queued := by rw [stays.epoch]; exact queued
  single := Nat.zero_le _
  flights := nofun
  late := by rw [stays.epoch]; exact h.late

theorem Orderly.finish (h : w.Orderly user first) {f : Flight} (hf : w.flights = [f]) :
    ({ w with coordinator := ((finishFlush f.batch f.cause).run w.coordinator).2,
              flights := [] } : World).Orderly user first := by
  have hw := h.flights f (by simp [hf])
  obtain ⟨stays, ⟨-, -, hp, hq⟩ | ⟨-, -, -, hp, b₀, hq, hb⟩ | ⟨-, -, hp, hq, -⟩⟩ := h.finish_cases hf
  · exact h.alone stays (hp ▸ h.plan) (hq ▸ h.queued)
  · refine h.alone stays (hp ▸ h.plan) fun b hb' => ?_
    rw [hq] at hb'
    cases hb'
    have waiting : b₀.Fit user ∧ first ≤ b₀.serial ∧ b₀.epoch = w.coordinator.epoch := by
      rcases hb with hb | ⟨-, rfl⟩
      · exact h.queued b₀ hb
      · exact ⟨⟨hw.batch.taken, nofun, nofun⟩, h.fresh, rfl⟩
    exact ⟨waiting.1.prepend hw.batch, waiting.2⟩
  · exact h.alone stays (hp ▸ (hw.batch.restore h.plan).2.1) (hq ▸ h.queued)

/-- A late write leaves the session as it is. -/
theorem Orderly.late_frame (h : w.Orderly user first) (a : LateAct) :
    (w.lateAct a).1.Orderly user first ∧ Stays w.coordinator (w.lateAct a).1.coordinator ∧
      (w.lateAct a).1.flights = w.flights ∧
      (w.lateAct a).1.coordinator.plan = w.coordinator.plan ∧
      (w.lateAct a).1.coordinator.queued = w.coordinator.queued := by
  cases a with
  | reply i r =>
    refine ⟨{ h with late := fun f hf => ?_ }, .refl _, rfl, rfl, rfl⟩
    obtain ⟨g, hg, hb, -⟩ := mem_answered hf
    rw [hb]; exact h.late g hg
  | finish i =>
    simp only [World.lateAct]
    split
    · exact ⟨h, .refl _, rfl, rfl, rfl⟩
    · next f hf =>
      obtain ⟨hs, he⟩ := h.late f (ready?_mem hf).1
      obtain ⟨stays, hp, hq, hl⟩ := finishFlush_late he f.cause
      have keep := h.rest stays hp hq fun x hx hx' he => hl x hx (by omega) he
      exact ⟨{ keep with late := fun g hg => keep.late g (List.mem_of_mem_eraseIdx hg) }, stays, rfl, hp, hq⟩

theorem still_frame (w : World) {a : Act} (ha : a.Still) :
    ∃ d, (w.act a).1 = { w with coordinator := d } ∧ Stays w.coordinator d ∧ d.plan = w.coordinator.plan ∧
      d.queued = w.coordinator.queued ∧ d.inFlight = w.coordinator.inFlight := by
  cases a with
  | close => exact ⟨_, rfl, stays_stopTimer _, stopTimer_plan _, stopTimer_queued _, stopTimer_inFlight _⟩
  | listen fault => exact ⟨_, rfl, ⟨rfl, rfl, Nat.le_succ _, id⟩, rfl, rfl, rfl⟩
  | unlisten i =>
    simp only [World.act]
    split
    · exact ⟨_, rfl, .refl _, rfl, rfl, rfl⟩
    · exact ⟨_, rfl, ⟨rfl, rfl, Nat.le_refl _, id⟩, rfl, rfl, rfl⟩
  | _ => exact ha.elim

theorem Orderly.still_frame (h : w.Orderly user first) {a : Act} (ha : a.Still) :
    (w.act a).1.Orderly user first ∧ Stays w.coordinator (w.act a).1.coordinator ∧
      (w.act a).1.flights = w.flights ∧
      (w.act a).1.late = w.late ∧ (w.act a).1.coordinator.plan = w.coordinator.plan ∧
      (w.act a).1.coordinator.queued = w.coordinator.queued := by
  obtain ⟨d, hd, stays, hp, hq, hi⟩ := w.still_frame ha
  rw [hd]
  exact ⟨h.rest stays hp hq fun x hx _ _ => hi ▸ hx, stays, rfl, rfl, hp, hq⟩

theorem Orderly.timers (h : w.Orderly user first) (timers : List Timer) :
    ({ w with coordinator := { w.coordinator with timers } } : World).Orderly user first :=
  h.rest (stays_timers _ timers) rfl rfl fun _ hx _ _ => hx

/-- A sign-in that succeeds begins a session in which nothing waits and nothing is written. -/
theorem identify_frame (w : World) {event : IdentityEvent} {remote : Remote} (hu : event.user = some user)
    (ho : w.coordinator.owner ≠ some user) (began : (w.identify event remote).1.coordinator.owner = some user) :
    ∃ backend plan cache log state, Loaded user plan ∧ w.identify event remote =
      ({ coordinator := { w.coordinator.ended with owner := some user, backend, plan, cache, log, state }
         flights := [], late := w.late ++ w.flights },
         .ofResult ((handle event fun _ => remote).run w.coordinator).1) := by
  simp only [identify] at began ⊢
  rcases handle_cases w.coordinator event (fun _ => remote) with ⟨r, hr⟩ | ⟨r, cache, log, state, hr⟩ |
    ⟨other, ho', -, r, backend, plan, cache, log, state, hr, hp⟩ <;> rw [hr] at began ⊢
  · exact absurd (by simpa using began) ho
  · simp [ended] at began
  · obtain rfl : other = user := Option.some.inj (ho'.symm.trans hu)
    exact ⟨backend, plan, cache, log, state, hp, by simp [ended]⟩

theorem orderly_identify (hw : w.Counted) {event : IdentityEvent} {remote : Remote} (hu : event.user = some user)
    (ho : w.coordinator.owner ≠ some user) (began : (w.identify event remote).1.coordinator.owner = some user)
    (hd : ∀ s ∈ (w.identify event remote).1.coordinator.plan.semesters, s.Dated) :
    (w.identify event remote).1.Orderly user w.coordinator.fresh := by
  obtain ⟨backend, plan, cache, log, state, hp, he⟩ := w.identify_frame hu ho began
  rw [he] at hd ⊢
  refine ⟨?_, by simp [ended], by simp [ended], Nat.zero_le _, by simp, fun f hf => ?_⟩
  · rcases hp with rfl | ⟨data, hp⟩
    · exact fit_empty user
    · exact fit_load rfl hp hd
  · obtain ⟨hs, he⟩ : w.coordinator.Given f.batch := (List.mem_append.1 hf).elim (hw.late f) (hw.flights f)
    exact ⟨hs, Nat.lt_succ_of_le he⟩

/-- Nothing waits and nothing is written. -/
def Quiet (w : World) : Prop := w.coordinator.queued = none ∧ w.flights = []

end World
end DegreePlan.Sync
