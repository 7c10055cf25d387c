import DegreePlan.Proofs.Sync.Backed

/-!
# Plans found in the cache

A plan that is found in the cache has no rows yet, and a batch saves the semesters that its mutations
name. So the rows take over what mutations have named, and only that: when nothing waits and nothing is
written, they are read back as the semesters that were named since the sign-in. The others are lost when
the session ends.
-/

namespace DegreePlan.Sync

open Plan Archive

/-- The semester is one of those that are named. -/
def Named (named : List Json) (s : Semester) : Bool := (Json.int s.id).isIn named

/-- The semesters that wait to be written. -/
def Coordinator.waiting (c : Coordinator) : List Json := c.queued.elim [] (·.semesters)

theorem named_append (xs ys : List Json) (s : Semester) : Named (xs ++ ys) s = (Named xs s || Named ys s) :=
  Json.isIn_append ..

theorem named_of_subset {xs ys : List Json} (h : ∀ s, Named ys s = true → Named xs s = true) :
    Named (xs ++ ys) = Named xs := by
  funext s
  rw [named_append]
  cases hs : Named ys s with
  | false => exact Bool.or_false _
  | true => rw [h s hs]; rfl

theorem waits_iff {c : Coordinator} {s : Semester} : c.Waits s ↔ Named c.waiting s = true := by
  unfold Coordinator.Waits Coordinator.waiting
  cases c.queued <;> simp [Named, Batch.Names, Json.isIn]

/-- Semesters that are named stay in a plan that is changed, and others may be named as well. -/
theorem ids_only_shaped {p q : Plan} (hs : Shaped p q) (xs ys : List Json) :
    (p.only (Named xs)).semesters.map (·.id) ⊆ (q.only (Named (xs ++ ys))).semesters.map (·.id) := by
  intro i hi
  obtain ⟨s, hs', rfl⟩ := List.mem_map.1 hi
  obtain ⟨hmem, named⟩ := mem_only.1 hs'
  obtain ⟨t, ht, hid⟩ := List.mem_map.1 (ids_shaped hs (List.mem_map_of_mem hmem))
  refine List.mem_map.2 ⟨t, mem_only.2 ⟨ht, ?_⟩, hid⟩
  have same : Named xs t = Named xs s := by rw [Named, Named, hid]
  rw [named_append, same, named, Bool.true_or]

namespace Deployment

/-- What holds while the rows take over a plan. They are of semesters that were named, and hold all of these but what
waits or is written. What was not named is as it was in `start`. -/
structure Partly (user : String) (first : Nat) (start : Plan) (named : List Json) (d : Deployment) : Prop where
  orderly : d.world.Orderly user first
  backend : d.world.coordinator.backend = some user
  /-- No row is of a semester that was not named. -/
  within : Within (d.archive.rows user) (d.world.coordinator.plan.only (Named named))
  untouched : ∀ s ∈ d.world.coordinator.plan.semesters, Named named s = true ∨ s ∈ start.semesters
  waiting : ∀ s, d.world.coordinator.Waits s → Named named s = true
  /-- While nothing is written, what was named is stored or waits. -/
  resting : d.world.flights = [] → ∀ s ∈ d.world.coordinator.plan.semesters, Named named s = true →
    ¬ d.world.coordinator.Waits s → Stored (d.archive.rows user) s
  written : ∀ f ∈ d.world.flights, ∀ s : Semester, f.batch.Names s → Named named s = true
  /-- The write that is under way stores what was named, as if the plan had nothing else. -/
  writing : ∀ f ∈ d.world.flights, ∃ P, Writing user (d.world.coordinator.only (Named named))
    (d.archive.rows user) (f.only P)
  late : ∀ f ∈ d.world.late, f.backend ≠ some user

variable {user : String} {first : Nat} {start : Plan} {named : List Json} {d : Deployment} {f : Flight}

open Coordinator

namespace Partly

/-- The writes, the plan and the batch stayed as they were, and so did the rows. -/
theorem rest (h : d.Partly user first start named) {w : World} (ho : w.Orderly user first)
    (hs : Stays d.world.coordinator w.coordinator) (hf : w.flights = d.world.flights)
    (hp : w.coordinator.plan = d.world.coordinator.plan)
    (hq : w.coordinator.queued = d.world.coordinator.queued) (hl : ∀ f ∈ w.late, f.backend ≠ some user)
    {archive : Archive} (hr : archive.rows user = d.archive.rows user) :
    Partly user first start named { world := w, archive } where
  orderly := ho
  backend := hs.backend.trans h.backend
  within := by simpa only [hp, hr] using h.within
  untouched := hp ▸ h.untouched
  waiting := by simpa only [Waits, hq] using h.waiting
  resting := by simpa only [Waits, hf, hp, hq, hr] using h.resting
  written := hf ▸ h.written
  writing f hm := by
    obtain ⟨P, writing⟩ := h.writing f (hf ▸ hm)
    exact ⟨P, hr ▸ writing.rest (congrArg (Plan.only _) hp) hq⟩
  late := hl

theorem congr (h : d.Partly user first start named) {named' : List Json} (same : Named named' = Named named) :
    d.Partly user first start named' :=
  { h with
    within := same ▸ h.within, untouched := same ▸ h.untouched, waiting := same ▸ h.waiting,
    resting := same ▸ h.resting
    written := same ▸ h.written, writing := same ▸ h.writing }

/-- What waits was named before. -/
theorem grow (h : d.Partly user first start named) : d.Partly user first start (named ++ d.world.coordinator.waiting) :=
  h.congr (named_of_subset fun s hs => h.waiting s (waits_iff.2 hs))

/-- A mutation that is made names every semester that it changes. -/
theorem apply (h : d.Partly user first start named) {m : Mutation} (hm : m.Plain) :
    let c := ((Coordinator.apply m).run d.world.coordinator).2
    Partly user first start (named ++ c.waiting) { d with world := { d.world with coordinator := c } } := by
  have ho := h.orderly.apply hm
  obtain ⟨stays, -, ⟨hp, hq⟩ | ⟨snapshot, e, b, -, hmade, -, hq, hb⟩⟩ := d.world.coordinator.apply_made m
  · exact (h.rest ho stays rfl hp hq h.late rfl).grow
  generalize ((Coordinator.apply m).run d.world.coordinator).2 = c at ho stays hmade hq ⊢
  have done := Mutation.done hmade
  have made := done.made h.orderly.plan.valid
  have before := @before_made d.world.coordinator c m e b made hq (hb.imp_right And.left)
  -- a semester that does not wait now was named before, if ever
  have earlier {s : Semester} (hn : Named (named ++ c.waiting) s = true) (hw : ¬ c.Waits s) :
      Named named s = true := by
    rw [named_append, Bool.or_eq_true] at hn
    exact hn.resolve_right fun hn => hw (waits_iff.2 hn)
  have later {s : Semester} (hn : Named named s = true ∨ c.Waits s) : Named (named ++ c.waiting) s = true := by
    rw [named_append, Bool.or_eq_true]
    exact hn.imp_right waits_iff.1
  refine ⟨ho, stays.backend.trans h.backend,
    ⟨h.within.ids, fun i hi => ids_only_shaped done.shaped _ _ (h.within.known hi)⟩, fun s hs => ?_,
    fun s hs => later (.inr hs), fun hf s hs hn hw => ?_, fun f hf s hs => later (.inl (h.written f hf s hs)),
    fun f hf => ?_, h.late⟩
  · -- what the mutation changes waits now, and so it is named
    rcases made.covered s hs with old | changed
    · exact (h.untouched s old).imp_left fun hn => later (.inl hn)
    · exact .inl (later (.inr ((waits_some hq).2 (names_push.2 (.inr changed)))))
  · exact h.resting hf s (before hs hw).1 (earlier hn hw) (before hs hw).2
  · obtain ⟨P, writing⟩ := h.writing f hf
    refine ⟨P, { writing with
      since := fun s hs hw => ?_
      grown := fun i hi => ids_only_shaped done.shaped _ _ (writing.grown hi) }⟩
    obtain ⟨hs, hn⟩ := mem_only.1 hs
    exact writing.since s (mem_only.2 ⟨(before hs hw).1, earlier hn hw⟩) (before hs hw).2

/-- A flush begins to write what waits. -/
theorem launch (h : d.Partly user first start named)
    (hl : d.world.coordinator.queued.isSome → d.world.flights = [] ∧ Averaged d.world.coordinator.plan)
    (storable : ∀ s ∈ d.world.coordinator.plan.semesters, s.Storable) :
    Partly user first start named { d with world := d.world.launch.1 } := by
  have ho := h.orderly.launch hl
  rcases h.orderly.launch_cases hl with ⟨-, hr⟩ | ⟨b, ps, gone, hq, hf, ha, hps, hgone, f, hstart, hr⟩
  · rw [hr] at ho ⊢
    exact h.rest ho (stays_stopTimer _) rfl (stopTimer_plan _) (stopTimer_queued _) h.late rfl
  rw [hr] at ho ⊢
  have names (s : Semester) : f.batch.Names s ↔ d.world.coordinator.Waits s := by
    rw [hstart, Flight.start_batch, waits_some hq]
    rfl
  refine ⟨ho, (stopTimer_backend _).trans h.backend, by simpa using h.within, by simpa using h.untouched, ?_, nofun,
    fun g hg s hs => ?_, fun g hg => ⟨Named named, ?_⟩, h.late⟩
  · exact fun s hs => absurd hs (not_waits rfl s)
  · rw [List.mem_singleton.1 hg, names] at hs
    exact h.waiting s hs
  · rw [List.mem_singleton.1 hg, hstart]
    exact writing_begun _ (Named named) h.orderly.plan (h.orderly.queued b hq).1 h.backend storable ha hps hgone
      (fun s _ hn => h.waiting s ((waits_some hq).2 hn))
      (fun s hs hnamed hn => h.resting hf s hs hnamed (by rwa [waits_some hq]))
      (stopTimer_plan _)

/-- The write of the session came on, and perhaps the rows with it. -/
theorem came (h : d.Partly user first start named) (hf : d.world.flights = [f]) {g : Flight} {archive : Archive}
    {P : Semester → Bool} (ho : ({ d.world with flights := [g] } : World).Orderly user first) (hb : g.batch = f.batch)
    (hw : Writing user (d.world.coordinator.only (Named named)) (archive.rows user) (g.only P))
    (within : Within (archive.rows user) (d.world.coordinator.plan.only (Named named))) :
    Partly user first start named { world := { d.world with flights := [g] }, archive } where
  orderly := ho
  backend := h.backend
  within := within
  untouched := h.untouched
  waiting := h.waiting
  resting := nofun
  written x hx := by
    rw [List.mem_singleton.1 hx, hb]
    exact h.written f (by simp [hf])
  writing x hx := ⟨P, List.mem_singleton.1 hx ▸ hw⟩
  late := h.late

/-- An answer brings the write of the session on. -/
theorem reply (h : d.Partly user first start named) (i : Nat) (r : Reply) {archive : Archive}
    (ha : answered d.archive d.world.flights i r = some archive) :
    Partly user first start named
      { world := { d.world with flights := (World.answered d.world.flights i r).1 }, archive } := by
  have ho := h.orderly.reply i r
  have backend : ∀ f ∈ d.world.flights, f.backend = some user := fun f hf => (h.writing f hf).choose_spec.backend
  rcases reply_cases h.orderly backend i ha with ⟨same, rfl⟩ |
    ⟨f, call, rest, hf, hl, ⟨goes, hp⟩ | ⟨cause, fails, rfl⟩⟩
  · rw [same]
    exact h
  · obtain ⟨P, hw⟩ := h.writing f (by simp [hf])
    have ids := ((h.orderly.flights f (by simp [hf])).plan.valid.only P).ids
    rw [goes] at ho ⊢
    have sent : call ∈ (f.only P).left := by
      change call ∈ f.left
      rw [hl]
      exact List.mem_cons_self
    exact h.came hf ho rfl (hw.performed ids hl hp) (hw.within sent hp h.within)
  · obtain ⟨P, hw⟩ := h.writing f (by simp [hf])
    rw [fails] at ho ⊢
    exact h.came hf ho rfl (hw.failed cause) h.within

/-- The end of a write that is not taken back: all that was named is stored but for what waits. -/
theorem finish (h : d.Partly user first start named) (hf : d.world.flights = [f]) (hl : f.left = [])
    (ends : (Report.ofFlushed ((finishFlush f.batch f.cause).run d.world.coordinator).1).fault = none)
    (hr : (Report.ofFlushed ((finishFlush f.batch f.cause).run d.world.coordinator).1).ended ≠ some .rolledBack) :
    Partly user first start named { d with world := { d.world with
      coordinator := ((finishFlush f.batch f.cause).run d.world.coordinator).2, flights := [] } } := by
  have ho := h.orderly.finish hf
  obtain ⟨P, hw⟩ := h.writing f (by simp [hf])
  obtain ⟨stays, hcases⟩ := h.orderly.finish_cases hf
  generalize (finishFlush f.batch f.cause).run d.world.coordinator = r at ho hr ends stays hcases ⊢
  have rest (hp : r.2.plan = d.world.coordinator.plan) (hn : ∀ s, r.2.Waits s → Named named s = true)
      (hs : ∀ s ∈ d.world.coordinator.plan.semesters, Named named s = true → ¬ r.2.Waits s →
        Stored (d.archive.rows user) s) :
      Partly user first start named { d with world := { d.world with coordinator := r.2, flights := [] } } :=
    ⟨ho, stays.backend.trans h.backend, hp ▸ h.within, hp ▸ h.untouched, hn, fun _ => hp ▸ hs,
      fun f hf => absurd hf List.not_mem_nil, fun f hf => absurd hf List.not_mem_nil, h.late⟩
  rcases hcases with ⟨hcause, -, hp, hq⟩ | ⟨-, -, -, hp, b₀, hq, hb⟩ | ⟨-, -, -, -, hx, -⟩
  · -- the write succeeded
    have waits (s : Semester) : r.2.Waits s ↔ d.world.coordinator.Waits s := by rw [Waits, hq, Waits]
    refine rest hp (fun s hs => h.waiting s ((waits s).1 hs)) fun s hs hn hwaits => ?_
    exact hw.succeeded hl hcause (mem_only.2 ⟨hs, hn⟩) (mt (waits s).2 hwaits)
  · -- the write was put off, and what it had to write waits again
    have joined (s : Semester) : r.2.Waits s ↔ d.world.coordinator.Waits s ∨ f.batch.Names s :=
      waits_put_off hq (hb.imp_right (And.imp_right fun new => by rw [new]))
    refine rest hp (fun s hs => ((joined s).1 hs).elim (h.waiting s) (h.written f (by simp [hf]) s))
      fun s hs hn hwaits => ?_
    rw [joined, not_or] at hwaits
    exact hw.kept (mem_only.2 ⟨hs, hn⟩) hwaits.1 hwaits.2
  · cases hr' : r.1 with
    | error f =>
      rw [hr'] at ends
      cases ends
    | ok x => exact absurd (by simp only [hr', Report.ofFlushed, hx x hr']) hr

end Partly

/-! ## Sessions -/

/-- If a write ends, its end raises nothing. -/
def Ends (w : World) : Act → Prop
  | .finish i => (w.act (.finish i)).2.fault.isNone
  | _ => True

instance (w : World) : (a : Act) → Decidable (Ends w a)
  | .finish i => inferInstanceAs (Decidable ((w.act (.finish i)).2.fault.isNone = true))
  | .mutate _ | .retry _ | .flush | .expire | .reply .. | .close | .listen _ | .unlisten _ => instDecidableTrue

/-- What may happen in a session in which no write is taken back and averages stay in range. A write is also taken back
if its end raises because the plan that comes back cannot be saved. -/
def Ranging (d : Deployment) (e : Event) : Prop :=
  d.Allowed e ∧ match e with
    | .act a => a.Makes Averaged d.world ∧ Ends d.world a
    | _ => True

instance (d : Deployment) : (e : Event) → Decidable (d.Ranging e)
  | .act a => inferInstanceAs (Decidable (d.Allowed (.act a) ∧ a.Makes Averaged d.world ∧ Ends d.world a))
  | .late a => inferInstanceAs (Decidable (d.Allowed (.late a) ∧ True))
  | .identity event remote => inferInstanceAs (Decidable (d.Allowed (.identity event remote) ∧ True))

theorem Ranging.loading {e : Event} (h : d.Ranging e) : d.world.Loading e := by
  obtain ⟨⟨-, -, ha⟩, hm⟩ := h
  cases e with
  | late a => trivial
  | identity event remote =>
    intro user hnew
    obtain ⟨-, hu, ho⟩ := newcomer?_eq_some.1 hnew
    exact absurd (ha.2.2.symm.trans hu) ho
  | act a =>
    refine ⟨?_, hm.1⟩
    obtain ⟨plain, textual⟩ := ha
    cases a with
    | mutate m => exact ⟨plain, textual⟩
    | retry failure => exact fun m hm => ⟨plain m hm, textual m hm⟩
    | flush | expire | reply | finish | close | listen | unlisten => trivial

/-- A mutation takes nothing out of what waits. -/
theorem waiting_apply (c : Coordinator) (m : Mutation) (s : Semester) (h : Named c.waiting s = true) :
    Named ((Coordinator.apply m).run c).2.waiting s = true := by
  rw [← waits_iff] at h ⊢
  obtain ⟨-, -, ⟨-, hq⟩ | ⟨snapshot, e, b, -, -, -, hq, hb⟩⟩ := c.apply_made m
  · rwa [Waits, hq]
  · rw [waits_some hq, names_push]
    rcases hb with hb | ⟨hn, -⟩
    · exact .inl ((waits_some hb).1 h)
    · exact absurd h (not_waits hn s)

namespace Partly

theorem retry (h : d.Partly user first start named) {failure : SyncFailure}
    (plain : ∀ m ∈ failure.mutations, m.Plain) (makes : (Act.retry failure).Makes Averaged d.world) :
    let c := ((Coordinator.retry failure).run d.world.coordinator).2
    Partly user first start (named ++ c.waiting) { d with world := { d.world with coordinator := c } } := by
  refine retry_makes (P := Averaged)
    (Q := fun c => Partly user first start (named ++ c.waiting) { d with world := { d.world with coordinator := c } })
    (fun c m hm hc _ => ?_) d.world.coordinator h.grow makes
  -- what waited before the mutation waits after it too
  refine (hc.apply (plain m hm)).congr (funext fun s => ?_)
  have stays := waiting_apply c m s
  simp only [named_append]
  cases hs : Named c.waiting s with
  | false => rw [Bool.or_false]
  | true => rw [stays hs, Bool.or_true, Bool.or_true]

/-- A timer that runs out begins to write what waits, if anything does. -/
theorem expire (h : d.Partly user first start named) (hc : d.world.Counted)
    (hl : d.world.coordinator.queued.isSome → d.world.flights = [] ∧ Averaged d.world.coordinator.plan)
    (storable : ∀ s ∈ d.world.coordinator.plan.semesters, s.Storable) :
    Partly user first start named { d with world := (d.world.act .expire).1 } := by
  rcases hc.expire_cases with he | he <;> rw [he]
  · exact h.launch hl storable
  · exact h

/-- A write that is over ends, if it is not taken back. -/
theorem finishes (h : d.Partly user first start named) (i : Nat) (ends : (d.world.act (.finish i)).2.fault = none)
    (ended : (d.world.act (.finish i)).2.ended ≠ some .rolledBack) :
    Partly user first start named { d with world := (d.world.act (.finish i)).1 } := by
  cases hr : World.ready? d.world.flights i with
  | none => simpa only [World.act, hr] using h
  | some f =>
    obtain ⟨hf, rfl, hl⟩ := h.orderly.ready hr
    simp only [World.act, hr] at ends ended ⊢
    simpa only [hf, List.eraseIdx_cons_zero] using h.finish hf hl ends ended

/-- Every step keeps what is known, and what waits after it is named. -/
theorem step (h : d.Partly user first start named) (hc : d.world.Counted)
    (hb : d.world.Holds (Backed [user])) {e : Event} (he : d.Ranging e) :
    (d.step e).Partly user first start (named ++ (d.step e).world.coordinator.waiting) := by
  obtain ⟨⟨harchive, hended, ha⟩, hm⟩ := he
  obtain ⟨archive, harchive⟩ := Option.isSome_iff_exists.1 harchive
  simp only [Deployment.step, harchive, Option.getD_some]
  cases e with
  | identity event remote =>
    cases harchive
    rw [World.step, identify_owner ha.1 ha.2.1 ha.2.2]
    exact h.grow
  | late a =>
    obtain ⟨ho, stays, hf, hp, hq⟩ := h.orderly.late_frame a
    refine (h.rest ho stays hf hp hq (late_lateAct h.late a) ?_).grow
    cases a with
    | reply i r => exact rows_answered h.late harchive
    | finish i => cases harchive; rfl
  | act a =>
    obtain ⟨ha, -⟩ := ha
    have still (ha : a.Still) (hsame : archive = d.archive) :
        Partly user first start (named ++ (d.world.act a).1.coordinator.waiting)
        { world := (d.world.act a).1, archive } := by
      obtain ⟨ho, stays, hf, hlate, hp, hq⟩ := h.orderly.still_frame ha
      exact (h.rest ho stays hf hp hq (hlate ▸ h.late) (by rw [hsame])).grow
    cases a with
    | mutate m => cases harchive; exact h.apply ha
    | retry failure => cases harchive; exact h.retry ha hm.1
    | flush => cases harchive; exact (h.launch ha hb.plan.storable).grow
    | expire => cases harchive; exact (h.expire hc ha hb.plan.storable).grow
    | reply i r => exact (h.reply i r harchive).grow
    | finish i => cases harchive; exact (h.finishes i (Option.isNone_iff_eq_none.1 hm.2) hended).grow
    | close => exact still trivial (by cases harchive; rfl)
    | listen fault => exact still trivial (by cases harchive; rfl)
    | unlisten i => exact still trivial (by cases harchive; rfl)

end Partly

/-! ## The beginning and the end of a session -/

/-- The backend holds nothing for a user without rows. -/
theorem remote_rowless (rowless : d.archive.rows user = []) : (d.remote user).data.isBlank = true := by
  change (d.archive.document user).isBlank = true
  rw [Archive.document, rowless]
  rfl

/-- A sign-in of a user who has no rows and whose plan is found in the cache. -/
theorem signIn_found {event : IdentityEvent} (hnew : d.world.coordinator.newcomer? event = some user)
    (rowless : d.archive.rows user = []) {cache : Cache} (hc : d.world.coordinator.cleared = .ok (some cache))
    {data : Json} (loaded : (cache.load user).result = .ok (some data)) {p : Plan} (read : readPlan user data = .ok p) :
    ∃ c, d.step (.identity event (d.remote user)) =
        { d with world := { coordinator := c, flights := [], late := d.world.late ++ d.world.flights } } ∧
      c.owner = some user ∧ c.backend = some user ∧ c.queued = none ∧ c.plan = p := by
  have reads := (reading_cached (remote_rowless rowless) loaded).trans read
  obtain ⟨r, cache', log, state, hr⟩ := handle_reads hnew (fun _ => d.remote user) hc rfl reads
  refine ⟨{ d.world.coordinator.ended with
      owner := some user, backend := some user, plan := p, cache := cache', log, state },
    ?_, rfl, rfl, rfl, rfl⟩
  simp [Deployment.step, archive?, World.step, World.identify, hr, Coordinator.ended]

theorem orderly_found (hd : d.world.Counted) {event : IdentityEvent}
    (hnew : d.world.coordinator.newcomer? event = some user) {c : Coordinator}
    (hs : d.step (.identity event (d.remote user)) =
      { d with world := { coordinator := c, flights := [], late := d.world.late ++ d.world.flights } })
    (owner : c.owner = some user) (dated : ∀ s ∈ c.plan.semesters, s.Dated) :
    ({ coordinator := c, flights := [], late := d.world.late ++ d.world.flights } : World).Orderly user
      d.world.coordinator.fresh := by
  obtain ⟨-, hu, ho⟩ := newcomer?_eq_some.1 hnew
  have hworld : (d.world.identify event (d.remote user)).1 =
    { coordinator := c, late := d.world.late ++ d.world.flights } :=
    congrArg Deployment.world hs
  rw [← hworld]
  exact World.orderly_identify hd hu ho (hworld ▸ owner) (hworld ▸ dated)

theorem partly_start (hd : d.world.Counted) (hb : d.world.Holds (Backed [])) {event : IdentityEvent}
    (hnew : d.world.coordinator.newcomer? event = some user)
    (others : ∀ f ∈ d.world.flights ++ d.world.late, f.backend ≠ some user)
    (rowless : d.archive.rows user = []) {cache : Cache} (hc : d.world.coordinator.cleared = .ok (some cache))
    {data : Json} (loaded : (cache.load user).result = .ok (some data)) (exported : Exported data) :
    let s := d.step (.identity event (d.remote user))
    readPlan user data = .ok s.world.coordinator.plan ∧ s.world.Counted ∧ s.world.Holds (Backed [user]) ∧
      s.Partly user d.world.coordinator.fresh s.world.coordinator.plan [] := by
  intro s
  obtain ⟨p, read, -⟩ := readPlan_recoverable user (.inr exported)
  obtain ⟨c, hs, owner, backend, queued, rfl⟩ := signIn_found hnew rowless hc loaded read
  have hs : s = _ := hs
  have backed : s.world.Holds (Backed []) :=
    World.backed_step hd hb (e := .identity event (d.remote user)) fun other hother => by
    obtain rfl : user = other := Option.some.inj (hnew.symm.trans hother)
    exact ⟨rfl, some cache, data, hc, found_cached (remote_rowless rowless) loaded, .inr exported⟩
  have counted : s.world.Counted := hd.step (.identity event (d.remote user))
  rw [hs] at backed counted ⊢
  refine ⟨read, counted, Backed.watch backed owner, ?_⟩
  exact {
    orderly := orderly_found hd hnew hs owner backed.plan.dated
    backend
    within := by rw [rowless]; exact ⟨List.nodup_nil, nofun⟩
    untouched := fun _ hs => .inr hs
    waiting := fun s hs => absurd hs (not_waits queued s)
    resting := fun _ s _ hn => by cases hn
    written := nofun
    writing := nofun
    late := fun f hf => others f (List.mem_append.2 (List.mem_append.1 hf).symm) }

/-- When nothing waits and nothing is written, the rows are read back as the semesters that were named. -/
theorem Partly.load (h : d.Partly user first start named) (hb : d.world.Holds (Backed [user])) (quiet : d.world.Quiet)
    (base : Plan) : ∃ q, base.load (d.archive.document user) = .ok q ∧
      (d.world.coordinator.plan.only (Named named)).SameSemesters q := by
  have recoverable := hb.plan.only (Named named)
  have stored : ∀ s ∈ (d.world.coordinator.plan.only (Named named)).semesters,
      Stored (d.archive.rows user) s := fun s hs =>
    h.resting quiet.2 s (mem_only.1 hs).1 (mem_only.1 hs).2 (not_waits quiet.1 s)
  obtain ⟨q, l, hq, perm, semesters⟩ :=
    h.within.load recoverable.valid recoverable.keyed recoverable.separate stored (recordsOf_document _ _) base
  exact ⟨q, hq, sameSemesters_settled recoverable.valid perm semesters⟩

theorem signOut_backed (hd : d.world.Counted) (hb : d.world.Holds (Backed [user])) {event : IdentityEvent}
    (hk : event.kind = .signedOut) (remote : Remote) : let left := d.step (.identity event remote)
    left.archive = d.archive ∧ left.world.coordinator.owner = none ∧ left.world.Holds (Backed [user]) := by
  refine ⟨rfl, ?_, World.backed_step hd hb (e := .identity event remote) fun other hother => ?_⟩
  · have out : (handle event fun _ => remote).run d.world.coordinator = endSession.run d.world.coordinator := by
      simp [handle, hk]
    have owner := d.world.coordinator.endSession_signedOut.owner
    rw [← out] at owner
    simp only [Deployment.step, World.step, World.identify]
    split <;> exact owner
  · exact absurd hk (newcomer?_eq_some.1 hother).1

/-- A user who comes back when their file is gone has what the rows are read as. -/
theorem signIn_rows (hb : d.world.Holds (Backed [user])) (out : d.world.coordinator.owner = none)
    {event : IdentityEvent} (hk : event.kind ≠ .signedOut) (hu : event.user = some user) {q : Plan}
    (load : ({ owner := some user } : Plan).load (d.archive.document user) = .ok q) :
    let back := (d.step (.identity event (d.remote user))).world.coordinator
    back.owner = some user ∧ back.plan.semesters = q.semesters := by
  obtain ⟨cache, hc, free, gone⟩ := Backed.cleared hb
  have hnew : d.world.coordinator.newcomer? event = some user := newcomer?_eq_some.2 ⟨hk, hu, by rw [out]; nofun⟩
  have nothing : cached user (some cache) = .ok .null := by
    rw [cached, Cache.load_none (gone user (List.mem_singleton_self user))]
    rfl
  obtain ⟨p, hp, -, semesters⟩ := readPlan_of_load load
  have read : reading user (d.remote user) (some cache) = .ok p := (reading_remote (d.remote user) nothing).trans hp
  obtain ⟨r, e, log, state, hr, -⟩ := signIn_backs hc free (List.forall_mem_nil _) hnew rfl read
  simp only [Deployment.step, World.step, World.identify, hr]
  split <;> exact ⟨rfl, semesters⟩

/-! ## Writes of one save -/

/-- A batch that names one semester is written by one save. -/
theorem payloads_one {p : Plan} {b : Batch} {v json : Json} {s : Semester} (names : b.semesters = [v])
    (found : p.semester? v = some s) (hj : s.toJson = .ok json) : payloads p b = .ok [json] := by
  have sorted : b.sortedSemesters = .ok [v] := by rw [Batch.sortedSemesters, names]; rfl
  simp only [payloads, sorted, ok_bind, List.filterMapM_cons, found, hj]
  rfl

theorem goneIds_nil {p : Plan} {b : Batch} {gone : List Json} (keeps : b.deleted = []) (h : goneIds p b = .ok gone) :
    gone = [] := by
  simp only [goneIds, bind_eq_ok, pure_eq_ok, keeps] at h
  obtain ⟨-, -, -, -, -, -, rfl⟩ := h
  rfl

/-- A mutation that names one semester and deletes nothing is the only one of a new batch. -/
theorem apply_one {c : Coordinator} {q : Plan} (h : Fit user c.plan) (idle : c.queued = none)
    (owner : c.owner = some user) {m : Mutation} {v : Json} (made : m.apply c.plan = .ok ({ semesters := [v] }, q)) :
    ((apply m).run c).2.plan = q ∧ ∃ b, ((apply m).run c).2.queued = some b ∧ b.semesters = [v] ∧
    b.deleted = [] := by
  obtain ⟨r, cache, log, state, hr, -⟩ := c.apply_does (by rw [owner]; rfl) h.snapshot made rfl
  obtain ⟨-, -, -, b, hb, waited | ⟨-, rfl⟩⟩ := enqueue_frame { c with state := .applying, plan := q }
    { owner := some user, version := c.plan.version, semesters := sorted c.plan.semesters } m { semesters := [v] }
  · cases idle.symm.trans waited
  · rw [hr]
    exact ⟨c.changed_plan .., _, (restartTimer_queued _).trans hb, rfl, rfl⟩

/-- In a session at rest, a mutation that names one semester and deletes nothing is flushed as one save. -/
theorem flush_one (h : d.world.Orderly user first) (quiet : d.world.Quiet)
    (owner : d.world.coordinator.owner = some user) (backend : d.world.coordinator.backend = some user)
    {m : Mutation} {v : Json} {q : Plan} (plain : m.Plain)
    (made : m.apply d.world.coordinator.plan = .ok ({ semesters := [v] }, q)) (averaged : Averaged q)
    {s : Semester} {json : Json} (found : q.semester? v = some s) (hj : s.toJson = .ok json) :
    ∃ w f, (d.step (.act (.mutate m))).step (.act .flush) = { d with world := w } ∧
      w.Orderly user first ∧ w.flights = [f] ∧
      w.coordinator.plan = q ∧ w.coordinator.queued = none ∧ f.backend = some user ∧
      f.left = [.save json] ∧ f.cause = none := by
  obtain ⟨plan, b, hb, names, keeps⟩ := apply_one h.plan quiet.1 owner made
  obtain ⟨stays, -⟩ := d.world.coordinator.apply_made m
  have orderly := h.apply plain
  have mutated : d.step (.act (.mutate m)) =
      { d with world := { d.world with coordinator := ((apply m).run d.world.coordinator).2 } } := rfl
  generalize ((apply m).run d.world.coordinator).2 = c at plan hb stays orderly mutated
  have flushes : c.queued.isSome → d.world.flights = [] ∧ Averaged c.plan :=
    fun _ => ⟨quiet.2, plan ▸ averaged⟩
  have launched := orderly.launch flushes
  rcases orderly.launch_cases flushes with ⟨empty, -⟩ | ⟨b', ps, gone, hq, -, -, hps, hgone, f, hf, hl⟩
  · cases hb.symm.trans empty
  obtain rfl : b = b' := Option.some.inj (hb.symm.trans hq)
  obtain rfl : ps = [json] := Except.ok.inj (hps.symm.trans (payloads_one names (plan ▸ found) hj))
  obtain rfl : gone = [] := goneIds_nil keeps hgone
  have writes : c.backend = some user := stays.backend.trans backend
  rw [hl] at launched
  refine ⟨_, f, ?_, launched, rfl, (stopTimer_plan c).trans plan, rfl, ?_, ?_, ?_⟩
  · rw [mutated]
    simp only [Deployment.step, archive?, World.step, World.act, hl, Option.getD_some]
  · rw [hf, Flight.start_backend]
    exact writes
  · rw [hf]
    exact Flight.start_left _ _ writes
  · rw [hf, Flight.start, writes]

/-- A save that is carried out ends the write, which commits. -/
theorem save_one (h : d.world.Orderly user first) (hf : d.world.flights = [f])
    (backend : f.backend = some user) {json : Json} (left : f.left = [.save json]) (cause : f.cause = none)
    {archive : Archive} (hp : (Call.save json).perform d.archive user = some archive) :
    let w := d.step (.act (.reply 0 .accepted))
    let e := w.step (.act (.finish 0))
    (w.world.step (.act (.finish 0))).2.ended = some .committed ∧ e.archive = archive ∧ e.world.flights = [] ∧
      e.world.coordinator.plan = d.world.coordinator.plan ∧
      e.world.coordinator.queued = d.world.coordinator.queued := by
  have sent : f.call? = some (user, .save json) := by rw [Flight.call?, backend, left]
  have carried : answered d.archive d.world.flights 0 .accepted = some archive := by simp [answered, hf, sent, hp]
  have answer : World.answered d.world.flights 0 .accepted = ([{ f with left := [] }], {}) := by
    simp [hf, World.answered, Flight.answer, left, Call.failure, Flight.call?]
  have replied : d.step (.act (.reply 0 .accepted)) =
      { world := { d.world with flights := [{ f with left := [] }] }, archive } := by
    simp only [Deployment.step, archive?, carried, World.step, World.act, answer, Option.getD_some]
  have ready : World.ready? [{ f with left := [] }] 0 = some { f with left := [] } := rfl
  obtain ⟨-, ⟨-, committed, plan, queued⟩ | ⟨failed, -⟩ | ⟨failed, -⟩⟩ :=
    (h.reply 0 .accepted).finish_cases (f := { f with left := [] }) (by rw [answer])
  · intro w e
    have hw : w = _ := replied
    have he : e = w.step (.act (.finish 0)) := rfl
    rw [he, hw]
    simp only [Deployment.step, World.step, World.act, ready, archive?, Option.getD_some]
    exact ⟨by rw [committed]; rfl, trivial, rfl, plan, queued⟩
  · rw [cause] at failed; cases failed
  · rw [cause] at failed; cases failed

end Deployment

/-! ## Runs -/

/-- A deployment with the semesters that were named since it is watched. -/
structure Watched where
  deployment : Deployment
  named : List Json := []

namespace Watched

open Coordinator Deployment

/-- Lets something happen, and notes what waits after it. -/
def step (t : Watched) (e : Event) : Watched :=
  { deployment := t.deployment.step e, named := t.named ++ (t.deployment.step e).world.coordinator.waiting }

/-- Take a coordinator with a cache whose sessions begin with what was exported. A user signs in who has no rows and no
writes under way, and whose plan is found in the cache. After any run of their session in which no write is taken back,
one write is made at a time and averages stay in range, when nothing waits and nothing is written: what no mutation has
named is as it was found; the rows are read as the semesters that were named, and as the whole plan just if all
semesters were named; and so is the plan of the user when they sign out and in again. -/
theorem rows_hold_named {quiet : Float} {first : Cache} (free : first.Free) {d : Deployment}
    (earlier : Runs World.Loading (fun w e => (w.step e).1) { coordinator := .new quiet (some first) } d.world)
    {arrival : IdentityEvent} {user : String} (hnew : d.world.coordinator.newcomer? arrival = some user)
    (others : ∀ f ∈ d.world.flights ++ d.world.late, f.backend ≠ some user)
    (rowless : d.archive.rows user = []) {cache : Cache} (hc : d.world.coordinator.cleared = .ok (some cache))
    {data : Json} (loaded : (cache.load user).result = .ok (some data)) (exported : Exported data) {t : Watched}
    (run : Runs (fun t e => t.deployment.Ranging e) step { deployment := d.step (.identity arrival (d.remote user)) } t)
    (rests : t.deployment.world.Quiet) :
    let found := (d.step (.identity arrival (d.remote user))).world.coordinator.plan
    let p := t.deployment.world.coordinator.plan
    readPlan user data = .ok found ∧
    (∀ s ∈ p.semesters, Named t.named s = true ∨ s ∈ found.semesters) ∧
    (∀ base : Plan, ∃ q, base.load (t.deployment.archive.document user) = .ok q ∧
      (p.only (Named t.named)).SameSemesters q ∧
      (p.SameSemesters q ↔ ∀ s ∈ p.semesters, Named t.named s = true)) ∧
    ∀ departure again :
    IdentityEvent, departure.kind = .signedOut → again.kind ≠ .signedOut → again.user = some user →
      let left := t.deployment.step (.identity departure (t.deployment.remote user))
      let back := (left.step (.identity again (left.remote user))).world.coordinator
      back.owner = some user ∧ (p.only (Named t.named)).SameSemesters back.plan ∧
        (p.SameSemesters back.plan ↔ ∀ s ∈ p.semesters, Named t.named s = true) := by
  intro found p
  obtain ⟨hd, hb⟩ := World.backed_run earlier (World.counted_new quiet (some first)) (World.backed_new quiet free)
  obtain ⟨read, started⟩ := partly_start hd hb hnew others rowless hc loaded exported
  have kept : t.deployment.world.Counted ∧ t.deployment.world.Holds (Backed [user]) ∧
      t.deployment.Partly user d.world.coordinator.fresh found t.named :=
    run.keeps (P := fun t => t.deployment.world.Counted ∧ t.deployment.world.Holds (Backed [user]) ∧
      t.deployment.Partly user d.world.coordinator.fresh found t.named) started
        fun t e ⟨hc, hb, h⟩ he => ⟨hc.step e, World.backed_step hc hb he.loading, h.step hc hb he⟩
  obtain ⟨counted, backed, h⟩ := kept
  refine ⟨read, h.untouched, fun base => ?_, fun departure again hdeparture hagain hu => ?_⟩
  · obtain ⟨q, hq, same⟩ := h.load backed rests base
    exact ⟨q, hq, same, sameSemesters_only_iff same⟩
  · obtain ⟨q, hq, same⟩ := h.load backed rests { owner := some user }
    obtain ⟨archive, owner, left⟩ := signOut_backed counted backed hdeparture (t.deployment.remote user)
    obtain ⟨back, semesters⟩ := signIn_rows left owner hagain hu (by rw [archive]; exact hq)
    have same : (p.only (Named t.named)).SameSemesters
        ((t.deployment.step (.identity departure (t.deployment.remote user))).step (.identity again
          ((t.deployment.step (.identity departure (t.deployment.remote user))).remote
            user))).world.coordinator.plan := by
      rw [SameSemesters, semesters]
      exact same
    exact ⟨back, same, sameSemesters_only_iff same⟩

/-- A plan with a course is found in the cache, and the status of the course is written. The user signs out then, and in
again, and has the plan. -/
theorem rows_hold_named_written :
    let course : Entry := { id := .int 1, code := .str "CS 101", title := .str "", credits := 3, status := .planned
                            semester := .int 202400, grade := none }
    let plan := [.addSemester (.str "Fall") (.int 2024) (.int 18), .addCourse course].foldl Plan.after
      ({ owner := some "user-a" } : Plan)
    let data := plan.toJson.toOption.getD .null
    let cache : Cache := { directory := .files [(Cache.fileName "user-a", .plan (Cache.userKey "user-a") data)] }
    let d : Deployment := { world := { coordinator := .new 0.4 (some cache) }, archive := {} }
    let arrival : IdentityEvent := { user := some "user-a", kind := .signedIn }
    let departure : IdentityEvent := { user := none, kind := .signedOut }
    let events : List Event :=
      [.act (.mutate (.setStatus (.int 202400) (.int 1) (.str "completed") (.str "A"))), .act .flush,
      .act (.reply 0 .accepted), .act (.finish 0)]
    let t := events.foldl step { deployment := d.step (.identity arrival (d.remote "user-a")) }
    let left := t.deployment.step (.identity departure (t.deployment.remote "user-a"))
    let back := (left.step (.identity arrival (left.remote "user-a"))).world.coordinator
    readPlan "user-a" data = .ok (d.step (.identity arrival (d.remote "user-a"))).world.coordinator.plan ∧
      t.deployment.world.coordinator.plan.entries.map (·.status) = [.completed] ∧ back.owner = some "user-a" ∧
      t.deployment.world.coordinator.plan.SameSemesters back.plan := by
  intro course plan data cache d arrival departure events t left back
  obtain ⟨json, hj⟩ : ∃ json, plan.toJson = .ok json := toJson_of_dated (by decide +kernel) (by decide +kernel)
  have hdata : data = json := by simp [data, hj, Except.toOption]
  have exported : Exported data := by
    have limits : ∀ s ∈ plan.semesters, s.maxCredits = .int 18 := by decide +kernel
    have reached : plan.Reachable (some "user-a") := Plan.Reachable.empty.changes _
    exact ⟨some "user-a", plan, reached, fun s hs => ⟨18, limits s hs⟩,
      by decide +kernel, reached.valid.separate (by decide +kernel), hdata ▸ hj⟩
  have loaded : (cache.load "user-a").result = .ok (some data) := by
    rw [Cache.load_saved (show cache.file? "user-a" = _ from List.lookup_cons_self), hdata, orElse_toJson hj]
  have run :
      Runs (fun t e => t.deployment.Ranging e) step
      { deployment := d.step (.identity arrival (d.remote "user-a")) } t :=
    Runs.start.all events (by decide +kernel)
  have rests : t.deployment.world.Quiet :=
    ⟨Option.isNone_iff_eq_none.1 (by decide +kernel), List.isEmpty_iff.1 (by decide +kernel)⟩
  have covered : ∀ s ∈ t.deployment.world.coordinator.plan.semesters, Named t.named s = true := by decide +kernel
  have completed : t.deployment.world.coordinator.plan.entries.map (·.status) = [.completed] := by decide +kernel
  clear_value t
  obtain ⟨read, -, -, later⟩ := rows_hold_named (by simp [Cache.Free, cache]) .start rfl
    (fun f hf => absurd hf List.not_mem_nil) rfl rfl loaded exported run rests
  obtain ⟨owner, -, same⟩ := later departure arrival rfl (show EventKind.signedIn ≠ .signedOut by decide) rfl
  exact ⟨read, completed, owner, same.2 covered⟩

/-- A plan with two courses in two semesters is found in the cache, and the status of the first is written. The write
commits and nothing waits, but the rows are read as the first semester alone. -/
theorem found_semester_unsaved :
    let course (id semester : Int) (code : String) : Json :=
      .obj [("id", .int id), ("code", .str code), ("title", .str "T"),
      ("credits", .int 3), ("status", .str "planned"), ("semester_id", .int semester)]
    let data : Json := .obj [
      ("202400", .obj [("id", .int 202400), ("year", .int 2024), ("season", .str "Fall"),
        ("courses", .arr [course 1 202400 "CS 1301"])]),
      ("202501", .obj [("id", .int 202501), ("year", .int 2025), ("season", .str "Spring"),
        ("courses", .arr [course 2 202501 "CS 1331"])])]
    let cache : Cache := { directory := .files [(Cache.fileName "user-a", .plan (Cache.userKey "user-a") data)] }
    let d : Deployment := { world := { coordinator := .new 0.4 (some cache) }, archive := {} }
    let arrival : IdentityEvent := { user := some "user-a", kind := .signedIn }
    let status : Mutation := .setStatus (.int 202400) (.int 1) (.str "in-progress") .null
    let w := [Event.act (.mutate status), .act .flush, .act (.reply 0 .accepted)].foldl Deployment.step
      (d.step (.identity arrival (d.remote "user-a")))
    let e := w.step (.act (.finish 0))
    (w.world.step (.act (.finish 0))).2.ended = some .committed ∧ e.world.Quiet ∧
      e.world.coordinator.plan.semesters.map (·.id) = [202400, 202501] ∧
      ∃ q, ({ owner := some "user-a" } : Plan).load (e.archive.document "user-a") = .ok q ∧
        q.semesters.map (·.id) = [202400] ∧
        ¬ e.world.coordinator.plan.SameSemesters q := by
  intro course data cache d arrival status w e
  -- what each step computes, from what is found to what the rows are read as
  have computed : ∃ p, readPlan "user-a" data = .ok p ∧ (∀ s ∈ p.semesters, s.Dated) ∧
    ∃ m, status.apply p = .ok m ∧
      m.1.semesters = [.int 202400] ∧ m.1.deleted = [] ∧ Averaged m.2 ∧
      m.2.semesters.map (·.id) = [202400, 202501] ∧
      ∃ s ∈ m.2.semester? (.int 202400), ∃ json, s.toJson = .ok json ∧
        ∃ archive ∈ (Call.save json).perform {} "user-a",
      ∃ q, ({ owner := some "user-a" } : Plan).load (archive.document "user-a") = .ok q ∧
        q.semesters.map (·.id) = [202400] := by
    decide +kernel
  obtain ⟨p, read, dated, ⟨⟨_, _⟩, after⟩, made, rfl, rfl, averaged, ids, s, found, json, hj,
    archive, performed, q, load, stored⟩ := computed
  have loaded : (cache.load "user-a").result = .ok (some data) :=
    Cache.load_saved (show cache.file? "user-a" = some (.plan (Cache.userKey "user-a") data) from List.lookup_cons_self)
  have hnew : d.world.coordinator.newcomer? arrival = some "user-a" := rfl
  obtain ⟨c, begun, owner, backend, idle, rfl⟩ := signIn_found hnew rfl rfl loaded read
  have orderly := orderly_found (World.counted_new 0.4 (some cache)) hnew begun owner dated
  obtain ⟨v, f, flushed, orderly, hf, plan, queued, writes, left, cause⟩ := flush_one
    (d := { d with world := { coordinator := c, flights := [], late := d.world.late ++ d.world.flights } })
    (m := status) orderly ⟨idle, rfl⟩ owner backend trivial made averaged found hj
  obtain ⟨committed, archived, rests, kept, waits⟩ :=
    save_one (d := { d with world := v }) orderly hf writes left cause performed
  have hw : w = Deployment.step { d with world := v } (.act (.reply 0 .accepted)) := by
    simp only [w, List.foldl_cons, List.foldl_nil]
    rw [begun, flushed]
  have he : e = Deployment.step w (.act (.finish 0)) := rfl
  rw [he, hw]
  have ids := (congrArg (fun p : Plan => p.semesters.map (·.id)) (kept.trans plan)).trans ids
  refine ⟨committed, ⟨waits.trans queued, rests⟩, ids, q, by rw [archived]; exact load, stored, fun same => ?_⟩
  have two := congrArg List.length ids
  have one := congrArg List.length stored
  have lengths := same.length_eq
  simp only [List.length_map] at two one lengths
  rw [two, one] at lengths
  cases lengths

end Watched
end DegreePlan.Sync
