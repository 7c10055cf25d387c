import DegreePlan.Proofs.Sync.Written

/-!
# What waits is scheduled

A batch waits just when one timer runs, whatever nests in the writes and however they end. The waiting
batch belongs to the session: it carries the epoch, and its snapshot is one of the owner's plan. Only
closing the coordinator gives up the timer of a batch.
-/

namespace DegreePlan.Sync

open Plan

namespace Coordinator

/-- The batch is of an earlier session, or the plan that it goes back to is one of the owner. -/
structure Owns (c : Coordinator) (b : Batch) : Prop where
  begun : b.epoch ≤ c.epoch
  taken : b.epoch = c.epoch → c.owner.isSome ∧ b.snapshot.owner = c.owner

/-- What holds between operations. Of the batches that are written, `writing` are under way. -/
structure Scheduled (writing : List Batch) (c : Coordinator) : Prop where
  counted : c.Counted
  plan : c.plan.owner = c.owner
  /-- No timer outlives its batch. -/
  idle : c.queued = none → c.timers = []
  /-- A batch that waits has one timer. -/
  timed : c.queued.isSome → ∃ t, c.timers = [t]
  queued : ∀ b ∈ c.queued, b.epoch = c.epoch ∧ c.Owns b
  writing : ∀ b ∈ writing, c.Owns b

variable {bs : List Batch} {c d : Coordinator}

theorem Owns.congr {b : Batch} (h : c.Owns b) (he : d.epoch = c.epoch) (ho : d.owner = c.owner) : d.Owns b := by
  constructor
  · rw [he]; exact h.begun
  · rw [he, ho]; exact h.taken

theorem Counted.restartTimer (h : c.Counted) : ∃ t, c.restartTimer.timers = [t] :=
  ⟨{ handle := c.stopTimer.fresh, delay := c.stopTimer.quiet }, by
    simp only [Coordinator.restartTimer, (timers_stopped h).1, List.nil_append]⟩

namespace Scheduled

/-- The session goes on with the same batch and the same timer. -/
theorem rest (h : c.Scheduled bs) (hc : d.Counted) (hp : d.plan.owner = c.plan.owner) (ht : d.timers = c.timers)
    (hq : d.queued = c.queued) (he : d.epoch = c.epoch) (ho : d.owner = c.owner) : d.Scheduled bs where
  counted := hc
  plan := by rw [hp, h.plan, ho]
  idle := by rw [hq, ht]; exact h.idle
  timed := by rw [hq, ht]; exact h.timed
  queued b hb := by
    rw [hq] at hb
    exact ⟨by rw [he]; exact (h.queued b hb).1, (h.queued b hb).2.congr he ho⟩
  writing b hb := (h.writing b hb).congr he ho

/-- The session goes on with no batch and no timer. -/
theorem empty (h : c.Scheduled bs) (hc : d.Counted) (hp : d.plan.owner = c.plan.owner) (ht : d.timers = [])
    (hq : d.queued = none) (he : d.epoch = c.epoch) (ho : d.owner = c.owner) : d.Scheduled bs where
  counted := hc
  plan := by rw [hp, h.plan, ho]
  idle _ := ht
  timed hs := by rw [hq] at hs; cases hs
  queued b hb := by rw [hq] at hb; cases hb
  writing b hb := (h.writing b hb).congr he ho

/-- The session goes on with a batch of the session and a new timer. -/
theorem begun (h : c.Scheduled bs) (hc : d.Counted) (hp : d.plan.owner = c.plan.owner) {t : Timer} (ht : d.timers = [t])
    {b : Batch} (hq : d.queued = some b) (hb : b.epoch = c.epoch ∧ c.Owns b) (he : d.epoch = c.epoch)
    (ho : d.owner = c.owner) : d.Scheduled bs where
  counted := hc
  plan := by rw [hp, h.plan, ho]
  idle hn := by rw [hq] at hn; cases hn
  timed _ := ⟨t, ht⟩
  queued b' hb' := by
    cases hq.symm.trans hb'
    exact ⟨hb.1.trans he.symm, hb.2.congr he ho⟩
  writing b hb := (h.writing b hb).congr he ho

/-! ### Operations -/

/-- A mutation that does something joins the waiting batch, or begins one at the plan of the owner. -/
theorem apply (h : c.Scheduled bs) (m : Mutation) : ((Coordinator.apply m).run c).2.Scheduled bs := by
  have counted : ((Coordinator.apply m).run c).2.Counted := (grows_apply m c h.counted).1
  rcases c.apply_cases m with ⟨f, state, hr⟩ | ⟨e, plan, state, hm, -, hr⟩ |
    ⟨snapshot, e, plan, ho, hs, hm, -, r, cache, log, state, hr, -⟩ <;> rw [hr] at counted ⊢
  · exact h.rest counted rfl rfl rfl rfl rfl
  · exact h.rest counted (Mutation.done hm).owner rfl rfl rfl rfl
  · have applying : ({ c with state := .applying, plan } : Coordinator).Counted := { h.counted with }
    obtain ⟨t, ht⟩ := (grows_enqueue _ snapshot m e applying).1.restartTimer
    obtain ⟨stays, -, -, b, hq, hb⟩ := enqueue_frame { c with state := .applying, plan } snapshot m e
    refine h.begun counted ?_ ht ((restartTimer_queued _).trans hq) ?_ ((stays_restartTimer _).epoch.trans stays.epoch)
      (c.changed_owner snapshot m e plan)
    · rw [changed_plan]
      exact (Mutation.done hm).owner
    · rcases hb with waited | ⟨-, rfl⟩
      · obtain ⟨epoch, own⟩ := h.queued b waited
        exact ⟨epoch, own.begun, own.taken⟩
      · obtain ⟨xs, -, rfl⟩ := snapshot_eq_ok.1 hs
        exact ⟨rfl, Nat.le_refl _, fun _ => ⟨ho, h.plan⟩⟩

theorem retry (h : c.Scheduled bs) (failure : SyncFailure) : ((Coordinator.retry failure).run c).2.Scheduled bs :=
  retry_keeps (P := Scheduled bs) (fun m _ _ hd => hd.apply m) c h

/-- A flush stops the timer and takes the batch out. -/
theorem beginFlush (h : c.Scheduled bs) : (Coordinator.beginFlush.run c).2.Scheduled bs ∧
    ∀ b write, (Coordinator.beginFlush.run c).1 = .ok (some (b, write)) →
      (Coordinator.beginFlush.run c).2.Owns b := by
  have counted : (Coordinator.beginFlush.run c).2.Counted := (grows_beginFlush c h.counted).1
  have stopped : c.stopTimer.timers = [] := (timers_stopped h.counted).1
  rcases c.beginFlush_cases with ⟨hq, hr⟩ | ⟨b, hb, ⟨f, hr, -⟩ | ⟨ps, gone, -, -, hr⟩⟩ <;>
    rw [hr] at counted ⊢
  · exact ⟨h.empty counted (by simp) stopped (by simpa using hq) (by simp) (by simp), nofun⟩
  · exact ⟨h.empty counted (by simp) stopped rfl (by simp) (by simp), nofun⟩
  · refine ⟨h.empty counted (by simp) stopped rfl (by simp) (by simp), fun b' write hw => ?_⟩
    cases hw
    obtain ⟨-, own⟩ := h.queued b hb
    constructor
    · rw [stopTimer_epoch]; exact own.begun
    · rw [stopTimer_epoch, stopTimer_owner]; exact own.taken

/-- A write that ends leaves batch and timer, or puts what it could not write in front and starts the timer anew. -/
theorem finishFlush (h : c.Scheduled bs) {b : Batch} (hb : b ∈ bs) (outcome : Option String) :
    ((Coordinator.finishFlush b outcome).run c).2.Scheduled bs := by
  have counted : ((Coordinator.finishFlush b outcome).run c).2.Counted := (grows_finishFlush b outcome c h.counted).1
  have own := h.writing b hb
  rcases c.finishFlush_cases b outcome with ⟨-, f, hr⟩ |
    ⟨rest, hd, ⟨-, log, state, hr⟩ | ⟨-, -, state, hr⟩ |
      ⟨he, -, cause, -, ⟨f, -, hr⟩ | ⟨log, hr⟩⟩ |
      ⟨-, -, cause, -, ⟨f, -, hr⟩ |
        ⟨plan, hplan, r, cache, log, lastFailure, inFlight, lastOutcome, state, hr, -⟩⟩⟩ <;>
    rw [hr] at counted ⊢
  · exact h
  · exact h.rest counted rfl rfl rfl rfl rfl
  · exact h.rest counted rfl rfl rfl rfl rfl
  · exact h.rest counted rfl rfl rfl rfl rfl
  · have dropped : ({ c with inFlight := rest, log } : Coordinator).Counted :=
      { (grows_drop (dropBatch?_sublist hd) h.counted).1 with }
    have marked := (grows_mark _ b.serial .pending dropped).1
    obtain ⟨stays, hp, b₀, hq, hb₀⟩ := requeue_frame ({ c with inFlight := rest, log }.mark b.serial .pending) b
    obtain ⟨t, ht⟩ := (grows_joined _ b marked).1.restartTimer
    refine h.begun counted (congrArg Plan.owner hp) ht hq ?_ stays.epoch (requeue_owner _ b)
    -- the batch waits with the snapshot of the one that failed
    have epoch : b₀.epoch = c.epoch := by
      rcases hb₀ with waited | ⟨-, rfl⟩
      · exact (h.queued b₀ waited).1
      · rfl
    exact ⟨epoch, Nat.le_of_eq epoch, fun _ => own.taken he⟩
  · exact h.rest counted rfl rfl rfl rfl rfl
  · obtain ⟨-, rfl⟩ := restore_eq_ok.1 hplan
    exact h.rest counted rfl rfl rfl rfl rfl

/-- No batch of an earlier session owns anything in the next one. -/
theorem anew (h : c.Scheduled bs) (hc : d.Counted) (hp : d.plan.owner = d.owner) (ht : d.timers = [])
    (hq : d.queued = none) (he : d.epoch = c.epoch + 1) : d.Scheduled bs where
  counted := hc
  plan := hp
  idle _ := ht
  timed hs := by rw [hq] at hs; cases hs
  queued b hb := by rw [hq] at hb; cases hb
  writing b hb := by
    have old : b.epoch < d.epoch := he ▸ Nat.lt_succ_of_le (h.writing b hb).begun
    exact ⟨Nat.le_of_lt old, fun same => absurd same (Nat.ne_of_lt old)⟩

theorem handle (h : c.Scheduled bs) (event : IdentityEvent) (remote : String → Remote) :
    ((Coordinator.handle event remote).run c).2.Scheduled bs := by
  have counted : ((Coordinator.handle event remote).run c).2.Counted := (grows_handle event remote c h.counted).1
  have stopped : c.stopTimer.timers = [] := (timers_stopped h.counted).1
  rcases c.handle_cases event remote with ⟨r, hr⟩ | ⟨r, cache, log, state, hr⟩ |
    ⟨user, -, -, r, backend, plan, cache, log, state, hr, loaded⟩ <;> rw [hr] at counted ⊢
  · exact h
  · exact h.anew counted rfl stopped rfl rfl
  · refine h.anew counted ?_ stopped rfl rfl
    rcases loaded with rfl | ⟨data, hload⟩
    · rfl
    · exact (load_eq_ok hload).2.1

theorem subset {ds : List Batch} (h : c.Scheduled bs) (hs : ds ⊆ bs) : c.Scheduled ds :=
  { h with writing := fun b hb => h.writing b (hs hb) }

end Scheduled

theorem upheld_scheduled : Upheld Scheduled where
  fewer := Scheduled.subset
  flush h := h.beginFlush.1
  taken h hr :=
    { h.beginFlush.1 with writing := List.forall_mem_cons.2 ⟨h.beginFlush.2 _ _ hr, h.beginFlush.1.writing⟩ }
  finish outcome h hb := h.finishFlush hb outcome

end Coordinator

/-! ## Worlds -/

/-- The step that gives up the timer of a batch. -/
def Event.Closes : Event → Prop
  | .act .close => True
  | _ => False

instance : DecidablePred Event.Closes
  | .act .close => inferInstanceAs (Decidable True)
  | .act (.mutate _) | .act (.retry _) | .act .flush | .act .expire | .act (.reply ..) | .act
    (.finish _) | .act (.listen _)
  | .act (.unlisten _) | .late _ | .identity .. => inferInstanceAs (Decidable False)

namespace World

open Coordinator

variable {w : World}

theorem scheduled_act (hc : w.Counted) (h : w.Holds Scheduled) {a : Act} (ha : ¬ (Event.act a).Closes) :
    (w.act a).1.Holds Scheduled := by
  cases a with
  | mutate m => exact Scheduled.apply h m
  | retry failure => exact Scheduled.retry h failure
  | flush | expire | reply | finish => exact upheld_scheduled.act hc h trivial
  | close => exact absurd trivial ha
  | listen fault => exact Scheduled.rest h (grows_listen _ fault hc.coordinator).1 rfl rfl rfl rfl rfl
  | unlisten i =>
    simp only [World.act]
    split
    · exact h
    · exact Scheduled.rest h (grows_unlisten _ _ hc.coordinator).1 rfl rfl rfl rfl rfl

/-- What every step but a closing keeps. -/
theorem scheduled_step (hc : w.Counted) (h : w.Holds Scheduled) (e : Event) (he : ¬ e.Closes) :
    (w.step e).1.Holds Scheduled := by
  cases e with
  | act a => exact scheduled_act hc h he
  | late a => exact upheld_scheduled.lateAct h a
  | identity event remote => exact upheld_scheduled.identify (Scheduled.handle h event fun _ => remote)

theorem scheduled_new (quiet : Float) (cache : Option Cache) : Holds Scheduled { coordinator := .new quiet cache } where
  counted := (counted_new quiet cache).coordinator
  plan := rfl
  idle _ := rfl
  timed := nofun
  queued := nofun
  writing := nofun

/-- Take any run of mutations, retries, flushes, timers, answers, late writes and identity events, however they
nest, in which the coordinator is not closed. A batch waits if and only if one timer runs, and otherwise none
runs. A batch that waits has the epoch of the session, somebody is signed in, and its snapshot is one of their
plan. -/
theorem queued_iff_timed {quiet : Float} {cache : Option Cache}
    (run : Runs (fun _ e => ¬ e.Closes) (fun w e => (w.step e).1) { coordinator := .new quiet cache } w) :
    let c := w.coordinator
    (c.queued.isSome ↔ ∃ t, c.timers = [t]) ∧ (c.queued = none → c.timers = []) ∧
      ∀ b ∈ c.queued, ∃ user, c.owner = some user ∧ b.epoch = c.epoch ∧ b.snapshot.owner = some user := by
  intro c
  obtain ⟨-, h⟩ : w.Counted ∧ w.Holds Scheduled :=
    run.keeps (P := fun w => w.Counted ∧ w.Holds Scheduled) ⟨counted_new quiet cache, scheduled_new quiet cache⟩
      fun _ e ⟨hc, h⟩ he => ⟨hc.step e, scheduled_step hc h e he⟩
  refine ⟨⟨h.timed, ?_⟩, h.idle, fun b hb => ?_⟩
  · rintro ⟨t, ht⟩
    cases hq : c.queued with
    | some b => rfl
    | none => cases ht.symm.trans (h.idle hq)
  · obtain ⟨epoch, own⟩ := h.queued b hb
    obtain ⟨signedIn, taken⟩ := own.taken epoch
    obtain ⟨user, hu⟩ := Option.isSome_iff_exists.1 signedIn
    exact ⟨user, hu, epoch, taken.trans hu⟩

/-- While a status is written another course is added, and the write fails: both changes wait, with one timer. The
user is then replaced while the second write is under way, whose failure brings back neither batch nor timer. -/
theorem queued_iff_timed_replaced :
    let remote : Remote := { stored := some (.ok (.arr [.obj [("id", .int 202400), ("courses", .arr
      [.obj [("id", .int 1), ("code", .str "CS 101"), ("semester_id", .int 202400)]])]])) }
    let course : Entry := { id := .int 2, code := .str "CS 102", title := .str "", credits := 3, status := .planned
                            semester := .int 202400, grade := none }
    let overtaken : List Event := [.identity { user := some "user-a", kind := .signedIn } remote,
      .act (.mutate (.setStatus (.int 202400) (.int 1) (.str "completed") .null)), .act .flush,
      .act (.mutate (.add course)), .act (.reply 0 .rejected), .act (.finish 0)]
    let replaced : List Event := [.act .expire, .identity { user := some "user-b", kind := .signedIn } {},
      .late (.reply 0 .rejected), .late (.finish 0)]
    let v : World := overtaken.foldl (fun w e => (w.step e).1) { coordinator := .new 0.4 none }
    let u : World := replaced.foldl (fun w e => (w.step e).1) v
    (∃ b t, v.coordinator.queued = some b ∧ b.mutations.length = 2 ∧ b.snapshot.owner = some "user-a" ∧
      v.coordinator.timers = [t]) ∧
    u.coordinator.owner = some "user-b" ∧ u.coordinator.queued.isNone ∧ u.coordinator.timers = [] := by
  intro remote course overtaken replaced v u
  have first : Runs (fun _ e => ¬ e.Closes) (fun w e => (World.step w e).1) { coordinator := .new 0.4 none } v :=
    Runs.start.all overtaken (by decide +kernel)
  have second : Runs (fun _ e => ¬ e.Closes) (fun w e => (World.step w e).1) { coordinator := .new 0.4 none } u :=
    first.all replaced (by decide +kernel)
  obtain ⟨timed, -, own⟩ := queued_iff_timed first
  obtain ⟨-, idle, -⟩ := queued_iff_timed second
  have waits : v.coordinator.queued.isSome = true := by decide +kernel
  have empty : u.coordinator.queued = none := by rw [← Option.isNone_iff_eq_none]; decide +kernel
  obtain ⟨b, hb⟩ := Option.isSome_iff_exists.1 waits
  obtain ⟨t, ht⟩ := timed.1 waits
  have owner : v.coordinator.owner = some "user-a" := by decide +kernel
  have two : (v.coordinator.queued.map (·.mutations.length)) = some 2 := by decide +kernel
  refine ⟨⟨b, t, hb, by simpa [hb] using two, ?_, ht⟩, by decide +kernel, by rw [empty]; rfl, idle empty⟩
  obtain ⟨user, hu, -, taken⟩ := own b hb
  exact taken.trans (hu.symm.trans owner)

end World
end DegreePlan.Sync
