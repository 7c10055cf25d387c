import DegreePlan.Proofs.Sync.Orderly

/-!
# Where a failed write goes back to

When nothing waits and nothing is written, the plan is what the last write that was committed has
written, or else what the session began with, with one exception. A move of a course to the semester
it is in changes nothing, so it does not raise the version, but it opens a batch. If this happens
during a write that then fails, the write is taken back under the batch, whose snapshot still holds
what was taken back; and when the batch fails as well, it comes back.
-/

namespace DegreePlan.Sync

open Plan

/-- Moves a course within its semester. -/
def Act.idles : Act → Bool
  | .mutate m => decide m.Idle
  | .retry failure => failure.mutations.any fun m => decide m.Idle
  | _ => false

/-- A session with what is known of its writes. -/
structure Chronicle where
  world : World
  /-- The semesters of the last write that was committed, at first those of the session. -/
  confirmed : List Semester
  /-- The semesters that a failed write goes back to. -/
  point : List Semester
  /-- During a write a course was moved within its semester. -/
  idled : Bool := false

namespace Chronicle

/-- A session that begins. -/
def start (w : World) : Chronicle where
  world := w
  confirmed := sorted w.coordinator.plan.semesters
  point := sorted w.coordinator.plan.semesters

/-- The end of a write of this plan. A write that is taken back under a waiting batch makes its own plan
the point to go back to, also if the plan that comes back cannot be saved. -/
def ended (c : Chronicle) (world : World) (plan : Plan) : Option SyncState → Chronicle
  | some .committed => { c with world, confirmed := sorted plan.semesters, point := sorted plan.semesters }
  | some .rolledBack | none =>
    { c with world, point := if c.world.coordinator.queued.isSome then sorted plan.semesters else c.point }
  | _ => { c with world }

/-- Lets something happen. -/
def step (c : Chronicle) (e : Event) : Chronicle :=
  match e with
  | .act (.finish i) =>
    match World.ready? c.world.flights i with
    | none => { c with world := (c.world.step e).1 }
    | some f => c.ended (c.world.step e).1 f.plan (c.world.step e).2.ended
  | .act a => { c with world := (c.world.step e).1, idled := c.idled || (!c.world.flights.isEmpty && a.idles) }
  | _ => { c with world := (c.world.step e).1 }

/-- What may happen in a session. -/
def Allowed (c : Chronicle) : Event → Prop
  | .act a => a.Allowed c.world
  | .late _ => True
  | .identity .. => False

instance (c : Chronicle) : DecidablePred c.Allowed
  | .act a => inferInstanceAs (Decidable (a.Allowed c.world))
  | .late _ => instDecidableTrue
  | .identity .. => instDecidableFalse

/-! ## What every step keeps -/

/-- What is known of a write: it goes back to the point, and what waits goes back to its plan. -/
structure Writing (c : Chronicle) (f : Flight) : Prop where
  point : f.batch.snapshot.semesters = c.point
  averaged : Averaged f.plan
  same : c.world.coordinator.queued = none → c.world.coordinator.plan.semesters = f.plan.semesters
  waiting : ∀ b ∈ c.world.coordinator.queued, b.snapshot.semesters = sorted f.plan.semesters
  newer : c.idled = false → c.world.coordinator.queued.isSome → f.plan.version < c.world.coordinator.plan.version

/-- What holds throughout a session. -/
structure Kept (user : String) (first : Nat) (c : Chronicle) : Prop where
  orderly : c.world.Orderly user first
  listed : ∃ p, Fit user p ∧ Averaged p ∧ sorted p.semesters = c.point
  resting : c.world.Quiet → sorted c.world.coordinator.plan.semesters = c.point
  waiting : c.world.flights = [] → ∀ b ∈ c.world.coordinator.queued, b.snapshot.semesters = c.point
  writing : ∀ f ∈ c.world.flights, c.Writing f
  confirmed : c.idled = false → c.point = c.confirmed

variable {user : String} {first : Nat} {c : Chronicle}

/-- The writes, the plan and the batch stayed as they were. -/
theorem Kept.rest (h : c.Kept user first) {w : World} (ho : w.Orderly user first) (hf : w.flights = c.world.flights)
    (hp : w.coordinator.plan = c.world.coordinator.plan) (hq : w.coordinator.queued = c.world.coordinator.queued) :
    Kept user first { c with world := w } where
  orderly := ho
  listed := h.listed
  resting := by simpa only [World.Quiet, hf, hp, hq] using h.resting
  waiting := by simpa only [hf, hq] using h.waiting
  writing f hm := by
    obtain ⟨h1, h2, h3, h4, h5⟩ := h.writing f (hf ▸ hm)
    exact ⟨h1, h2, by simpa only [hp, hq] using h3, by simpa only [hq] using h4, by simpa only [hp, hq] using h5⟩
  confirmed := h.confirmed

theorem Kept.idle (h : c.Kept user first) (b : Bool) : Kept user first { c with idled := c.idled || b } where
  orderly := h.orderly
  listed := h.listed
  resting := h.resting
  waiting := h.waiting
  writing f hm :=
    have ⟨h1, h2, h3, h4, h5⟩ := h.writing f hm
    ⟨h1, h2, h3, h4, fun hi => h5 (Bool.or_eq_false_iff.1 hi).1⟩
  confirmed hi := h.confirmed (Bool.or_eq_false_iff.1 hi).1

theorem Kept.still (h : c.Kept user first) (a : Act) (ha : a.Still) :
    Kept user first { c with world := (c.world.act a).1 } :=
  have ⟨ho, _, hf, _, hp, hq⟩ := h.orderly.still_frame ha
  h.rest ho hf hp hq

open Coordinator

/-- A mutation changes the plan only together with the batch. -/
theorem Kept.apply (h : c.Kept user first) {m : Mutation} (hm : m.Plain)
    (hi : c.idled = false → c.world.flights ≠ [] → ¬ m.Idle) :
    Kept user first { c with world := { c.world with coordinator := ((apply m).run c.world.coordinator).2 } } := by
  have ho := h.orderly.apply hm
  obtain ⟨-, -, ⟨hp, hq⟩ | ⟨snapshot, e, b, hs, hmade, he, hq, hb⟩⟩ := c.world.coordinator.apply_made m
  · exact h.rest ho rfl hp hq
  have taken : c.world.coordinator.queued = none →
      b.snapshot.semesters = sorted c.world.coordinator.plan.semesters := by
    intro hn
    rcases hb with hb | ⟨-, rfl⟩
    · rw [hn] at hb; cases hb
    · rw [h.orderly.plan.snapshot] at hs; rw [← Except.ok.inj hs]
  refine ⟨ho, h.listed, fun hquiet => ?_, fun hf b' hb' => ?_, fun f hf => ?_, h.confirmed⟩
  · have := hquiet.1
    rw [hq] at this; cases this
  · rw [hq] at hb'
    cases hb'
    rcases hb with hb | ⟨hn, -⟩
    · exact h.waiting hf b hb
    · exact (taken hn).trans (h.resting ⟨hn, hf⟩)
  · obtain ⟨h1, h2, h3, h4, h5⟩ := h.writing f hf
    refine ⟨h1, h2, fun hn => ?_, fun b' hb' => ?_, fun hidled _ => ?_⟩
    · rw [hq] at hn; cases hn
    · rw [hq] at hb'
      cases hb'
      rcases hb with hb | ⟨hn, -⟩
      · exact h4 b hb
      · exact (taken hn).trans (congrArg sorted (h3 hn))
    · have before := (h.orderly.flights f hf).before
      rcases (Mutation.done hmade).version_cases with ⟨-, hempty | hidle⟩ | ⟨hv, -⟩
      · rw [he] at hempty; cases hempty
      · exact absurd hidle (hi hidled (List.ne_nil_of_mem hf))
      · dsimp only at hv ⊢
        omega

/-- A flush begins to write what waits. -/
theorem Kept.launch (h : c.Kept user first)
    (hl : c.world.coordinator.queued.isSome → c.world.flights = [] ∧ Averaged c.world.coordinator.plan) :
    Kept user first { c with world := c.world.launch.1 } := by
  have ho := h.orderly.launch hl
  rcases h.orderly.launch_cases hl with ⟨hq, hr⟩ | ⟨b, ps, gone, hq, hf, ha, -, -, f, rfl, hr⟩
  · rw [hr] at ho ⊢
    exact h.rest ho rfl (stopTimer_plan _) (stopTimer_queued _)
  · rw [hr] at ho ⊢
    refine ⟨ho, h.listed, fun hquiet => ?_, fun hf => ?_, fun g hg => ?_, h.confirmed⟩
    · cases hquiet.2
    · cases hf
    · rw [List.mem_singleton.1 hg]
      refine ⟨?_, by simpa using ha, fun _ => by simp, nofun, nofun⟩
      rw [Flight.start_batch]
      exact h.waiting hf b hq

theorem Kept.reply (h : c.Kept user first) (i : Nat) (r : Reply) :
    Kept user first { c with world := { c.world with flights := (World.answered c.world.flights i r).1 } } where
  orderly := h.orderly.reply i r
  listed := h.listed
  resting hquiet := h.resting ⟨hquiet.1, World.answered_eq_nil hquiet.2⟩
  waiting hf := h.waiting (World.answered_eq_nil hf)
  writing f hf := by
    obtain ⟨g, hg, hb, hp, -⟩ := World.mem_answered hf
    obtain ⟨h1, h2, h3, h4, h5⟩ := h.writing g hg
    exact ⟨hb ▸ h1, hp ▸ h2, hp ▸ h3, hp ▸ h4, hp ▸ h5⟩
  confirmed := h.confirmed

/-- A write that is taken back and then cannot be saved ends like any that is taken back. -/
theorem ended_rolledBack {world : World} {plan : Plan} {r : Except Fault Flushed}
    (back : ∀ x, r = .ok x → x.state = .rolledBack) :
    c.ended world plan (Report.ofFlushed r).ended = c.ended world plan (some .rolledBack) := by
  cases r with
  | error f => rfl
  | ok x => simp only [Report.ofFlushed, back x rfl]

/-- The end of a write: what was written is confirmed, or the write is put off, or it is taken back. -/
theorem Kept.finish (h : c.Kept user first) {f : Flight} (hf : c.world.flights = [f]) :
    let r := (finishFlush f.batch f.cause).run c.world.coordinator
    Kept user first
      (c.ended { c.world with coordinator := r.2, flights := [] } f.plan (Report.ofFlushed r.1).ended) := by
  have ho := h.orderly.finish hf
  have hw := h.orderly.flights f (by simp [hf])
  obtain ⟨hpoint, haverage, hsame, hwait, hnewer⟩ := h.writing f (by simp [hf])
  obtain ⟨-, hcases⟩ := h.orderly.finish_cases hf
  generalize (finishFlush f.batch f.cause).run c.world.coordinator = r at ho hcases ⊢
  dsimp only
  rcases hcases with ⟨-, hr, hp, hq⟩ | ⟨-, -, hr, -, b₀, hq, -⟩ | ⟨-, hv, hp, hq, back, -⟩
  · have he : (Report.ofFlushed r.1).ended = some .committed := by rw [hr]; rfl
    rw [he]
    refine ⟨ho, ⟨f.plan, hw.plan, haverage, rfl⟩, fun hquiet => ?_, fun _ b hb => ?_,
      fun _ hg => (List.not_mem_nil hg).elim, fun _ => rfl⟩
    · exact congrArg sorted ((congrArg _ hp).trans (hsame (hq.symm.trans hquiet.1)))
    · exact hwait b (hq ▸ hb)
  · have he : (Report.ofFlushed r.1).ended = some .pending := by rw [hr]; rfl
    rw [he]
    refine ⟨ho, h.listed, fun hquiet => ?_, fun _ b hb => ?_, fun _ hg => (List.not_mem_nil hg).elim, h.confirmed⟩
    · cases hq.symm.trans hquiet.1
    · cases hq.symm.trans hb
      exact hpoint
  · obtain ⟨-, hfit, hsorted⟩ := hw.batch.restore h.orderly.plan
    rw [ended_rolledBack back]
    cases hc : c.world.coordinator.queued with
    | some b =>
      rw [hc] at hq hnewer hwait
      refine ⟨ho, ⟨f.plan, hw.plan, haverage, by simp [ended, hc]⟩, fun hquiet => ?_,
        fun _ b' hb' => ?_, fun _ hg => (List.not_mem_nil hg).elim, fun hi => ?_⟩
      · cases hq.symm.trans hquiet.1
      · simp only [ended, hc]
        exact hwait b' (hq ▸ hb')
      · exact absurd hv (Nat.ne_of_lt (hnewer hi rfl))
    | none =>
      rw [hc] at hq
      have hsame :
          (c.ended { c.world with coordinator := r.2, flights := [] } f.plan (some .rolledBack)).point = c.point := by
        simp [ended, hc]
      refine ⟨ho, by rw [hsame]; exact h.listed, fun _ => ?_, fun _ b' hb' => ?_,
        fun _ hg => (List.not_mem_nil hg).elim, fun hi => ?_⟩
      · rw [hsame, ← hpoint, ← hsorted]
        exact congrArg (fun q : Plan => sorted q.semesters) hp
      · cases hq.symm.trans hb'
      · rw [hsame]; exact h.confirmed hi

/-! ## Runs -/

/-- Every step of a session keeps what holds throughout it. -/
theorem Kept.step (h : c.Kept user first) {e : Event} (ha : c.Allowed e) : (c.step e).Kept user first := by
  cases e with
  | identity => exact ha.elim
  | late a =>
    obtain ⟨ho, -, hf, hp, hq⟩ := h.orderly.late_frame a
    exact h.rest ho hf hp hq
  | act a =>
    have idles : (c.idled || (!c.world.flights.isEmpty && a.idles)) = false → c.world.flights ≠ [] →
        a.idles = false := by
      simp +contextual
    have hidle := h.idle (!c.world.flights.isEmpty && a.idles)
    cases a with
    | mutate m => exact hidle.apply ha fun hi hf => by simpa [Act.idles] using idles hi hf
    | retry failure =>
      refine (World.retry_induction (w := c.world) (P := fun w => w.flights = c.world.flights ∧
        Kept user first { c with
            world := w, idled := c.idled || (!c.world.flights.isEmpty && Act.idles (.retry failure)) })
        (fun d m hm hd => ⟨hd.1, hd.2.apply (ha m hm) fun hi hf => ?_⟩) ⟨rfl, hidle⟩).2
      have := idles hi (hd.1 ▸ hf)
      simp only [Act.idles, List.any_eq_false, decide_eq_true_eq] at this
      exact this m hm
    | flush => exact hidle.launch ha
    | expire =>
      simp only [Chronicle.step, World.step]
      obtain ⟨timers, -, he⟩ | he := c.world.expire_cases <;> rw [he]
      · exact (hidle.rest (h.orderly.timers timers) rfl rfl rfl).launch ha
      · exact hidle
    | reply i r => exact hidle.reply i r
    | finish i =>
      cases hr : World.ready? c.world.flights i with
      | none => simpa only [Chronicle.step, World.step, World.act, hr] using h
      | some f =>
        obtain ⟨hf, rfl, -⟩ := h.orderly.ready hr
        simp only [Chronicle.step, World.step, World.act, hr]
        simpa only [hf, List.eraseIdx_cons_zero] using h.finish hf
    | close => exact hidle.still .close trivial
    | listen fault => exact hidle.still (.listen fault) trivial
    | unlisten i => exact hidle.still (.unlisten i) trivial

/-- A session that begins with a plan that can be written down. -/
theorem kept_start {w : World} (h : w.Orderly user first) (hq : w.coordinator.queued = none) (hf : w.flights = [])
    (ha : Averaged w.coordinator.plan) : (start w).Kept user first where
  orderly := h
  listed := ⟨w.coordinator.plan, h.plan, ha, rfl⟩
  resting _ := rfl
  waiting _ b hb := by cases hq.symm.trans hb
  writing f hm := by
    have : f ∈ w.flights := hm
    rw [hf] at this; cases this
  confirmed _ := rfl

/-- Take a session that began with a plan that can be written down, and any run of mutations, retries,
flushes, timers, answers and late writes in which no write begins before the last one ended. Whenever
nothing waits and nothing is written, the plan lists the point that failed writes go back to. So it
lists what was confirmed just when the point is what was confirmed, and so it is unless a course was
moved within its semester during a write. -/
theorem lists_point {w : World} (hw : World.Reachable w) {event : IdentityEvent} {remote : Remote}
    (hu : event.user = some user) (ho : w.coordinator.owner ≠ some user)
    (began : (w.identify event remote).1.coordinator.owner = some user)
    {document : Json} (exported : (w.identify event remote).1.coordinator.plan.toJson = .ok document)
    (run : Runs Allowed step (start (w.identify event remote).1) c) (quiet : c.world.Quiet) :
    c.world.coordinator.plan.ordered = .ok c.point ∧
      (c.world.coordinator.plan.ordered = .ok c.confirmed ↔ c.point = c.confirmed) ∧
      (c.idled = false → c.point = c.confirmed) := by
  obtain ⟨hd, ha⟩ := dated_of_toJson exported
  have horderly := World.orderly_identify hw.counted hu ho began hd
  have hkept : c.Kept user w.coordinator.fresh := by
    obtain ⟨backend, plan, cache, log, state, -, he⟩ := w.identify_frame hu ho began
    refine run.keeps (kept_start horderly ?_ ?_ ha) (fun _ _ h he => h.step he) <;> simp [he, Coordinator.ended]
  have hp := hkept.orderly.plan.ordered.trans (congrArg Except.ok (hkept.resting quiet))
  refine ⟨hp, ?_, hkept.confirmed⟩
  rw [hp, Except.ok.injEq]

/-- A course is completed, and the write succeeds. -/
theorem lists_point_completed :
    let remote : Remote := { stored := some (.ok (.arr [.obj [("id", .int 202400), ("courses", .arr
      [.obj [("id", .int 1), ("code", .str "CS 101"), ("semester_id", .int 202400)]])]])) }
    let arrival : IdentityEvent := { user := some "user-a", kind := .signedIn }
    let v := (World.identify { coordinator := .new 0.4 none } arrival remote).1
    let events : List Event :=
      [.act (.mutate (.setStatus (.int 202400) (.int 1) (.str "completed") .null)), .act .flush,
      .act (.reply 0 .accepted), .act (.finish 0)]
    let c := events.foldl step (start v)
    c.confirmed.flatMap (·.courses.map (·.status)) = [.completed] ∧
    c.world.coordinator.plan.ordered = .ok c.confirmed := by
  intro remote arrival v events c
  have written : v.coordinator.plan.toJson.toOption.isSome = true := by decide +kernel
  obtain ⟨document, exported⟩ : ∃ document, v.coordinator.plan.toJson = .ok document := by
    cases hj : v.coordinator.plan.toJson with
    | ok document => exact ⟨document, rfl⟩
    | error f => rw [hj] at written; cases written
  have run : Runs Allowed step (start v) c := Runs.start.all events (by decide +kernel)
  have quiet : c.world.Quiet :=
    ⟨Option.isNone_iff_eq_none.1 (by decide +kernel), List.isEmpty_iff.1 (by decide +kernel)⟩
  have settled : c.idled = false := by decide +kernel
  have user : arrival.user = some "user-a" := rfl
  obtain ⟨-, hiff, hpoint⟩ := lists_point (.new 0.4 none) user nofun (by decide +kernel) exported run quiet
  exact ⟨by decide +kernel, hiff.2 (hpoint settled)⟩

/-- A course is completed, and while this is written the course is moved within its semester. The write
fails and is taken back; the batch of the move fails as well, and the course is completed again. -/
theorem taken_back_returns :
    let remote : Remote := { stored := some (.ok (.arr [.obj [("id", .int 202400), ("courses", .arr
      [.obj [("id", .int 1), ("code", .str "CS 101"), ("semester_id", .int 202400)]])]])) }
    let arrival : IdentityEvent := { user := some "user-a", kind := .signedIn }
    let v := (World.identify { coordinator := .new 0.4 none } arrival remote).1
    let failing : List Event :=
      [.act (.mutate (.setStatus (.int 202400) (.int 1) (.str "completed") .null)), .act .flush,
      .act (.mutate (.move (.int 1) (.int 202400) (.int 202400))), .act (.reply 0 .rejected), .act (.finish 0)]
    let taken := failing.foldl step (start v)
    let again : List Event := [.act .flush, .act (.reply 0 .rejected), .act (.finish 0)]
    let c := again.foldl step taken
    v.coordinator.plan.toJson.toOption.isSome ∧ Runs Allowed step (start v) c ∧ c.world.Quiet ∧
      taken.world.coordinator.plan.entries.map (·.status) = [.planned] ∧
      c.world.coordinator.plan.entries.map (·.status) = [.completed] ∧
      c.world.coordinator.plan.ordered ≠ .ok c.confirmed := by
  intro remote arrival v failing taken again c
  have run : Runs Allowed step (start v) c := (Runs.start.all failing (by decide +kernel)).all again (by decide +kernel)
  have quiet : c.world.Quiet :=
    ⟨Option.isNone_iff_eq_none.1 (by decide +kernel), List.isEmpty_iff.1 (by decide +kernel)⟩
  have completed : c.world.coordinator.plan.entries.map (·.status) = [.completed] := by decide +kernel
  have confirmed : c.confirmed.flatMap (·.courses.map (·.status)) = [.planned] := by decide +kernel
  refine ⟨by decide +kernel, run, quiet, by decide +kernel, completed, fun ho => ?_⟩
  have hperm : (c.confirmed.flatMap (·.courses)).Perm c.world.coordinator.plan.entries :=
    (ordered_perm ho).flatMap_right _
  have := (hperm.map (·.status)).symm
  rw [completed, List.map_flatMap, confirmed] at this
  exact absurd (List.perm_singleton.1 this) (by decide)

end Chronicle
end DegreePlan.Sync
