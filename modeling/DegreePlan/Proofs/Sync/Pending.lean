import DegreePlan.Proofs.Sync.Raise
import DegreePlan.Proofs.Sync.Replay
import DegreePlan.Proofs.Sync.Resting

/-!
# What is pending

While the averages stay in range and all ids can be looked up, no flush raises on its own account. A coordinator then
reports something pending just while a batch waits or a write is under way, with three exceptions. A write that ends
leaves the list at the first batch of the same contents, so it may remove the batch of an earlier write in place of
its own, and that write raises when it ends and leaves a batch on the list for good. A session that cannot end keeps the
state of before. And a plan that is too long for the cache stops what brings it about in the middle.
-/

namespace DegreePlan.Sync

open Plan

namespace Coordinator

/-- What an operation gives that stops because the plan is too long for the cache. -/
def BreaksOff {α : Type} (r : Except Fault α) : Prop := r = .error (.value .integerTooLongToWrite)

theorem breaksOff_error {α : Type} {f : Fault} :
    BreaksOff (.error f : Except Fault α) ↔ f = .value .integerTooLongToWrite := by
  rw [BreaksOff, Except.error.injEq]

/-! ## Sound sessions -/

/-- The batch is of an earlier session, or one of the owner to whose snapshot the plan can go back. -/
structure Safe (c : Coordinator) (b : Batch) : Prop where
  begun : b.epoch ≤ c.epoch
  taken : b.epoch = c.epoch → ∃ user, c.owner = some user ∧ b.Fit user ∧ Averaged (origin b.snapshot)

/-- What holds between operations that keep the averages in range. Of the batches that are written, `writing` are under
way. -/
structure Sound (writing : List Batch) (c : Coordinator) : Prop where
  averaged : Averaged c.plan
  fit : ∀ user, c.owner = some user → Fit user c.plan
  queued : ∀ b ∈ c.queued, b.epoch = c.epoch ∧ c.Safe b
  writing : ∀ b ∈ writing, c.Safe b

variable {bs : List Batch} {c d : Coordinator} {b : Batch}

theorem Safe.congr (h : c.Safe b) (he : d.epoch = c.epoch) (ho : d.owner = c.owner) : d.Safe b := by
  constructor
  · rw [he]; exact h.begun
  · rw [he, ho]; exact h.taken

namespace Sound

/-- The session goes on with another plan and another batch. -/
theorem goto (h : c.Sound bs) (averaged : Averaged d.plan) (fit : ∀ user, c.owner = some user → Fit user d.plan)
    (queued : ∀ b ∈ d.queued, b.epoch = c.epoch ∧ c.Safe b) (he : d.epoch = c.epoch)
    (ho : d.owner = c.owner) : d.Sound bs where
  averaged := averaged
  fit user hu := fit user (ho ▸ hu)
  queued b hb := ⟨(queued b hb).1.trans he.symm, (queued b hb).2.congr he ho⟩
  writing b hb := (h.writing b hb).congr he ho

theorem rest (h : c.Sound bs) (hp : d.plan = c.plan) (hq : d.queued = c.queued) (he : d.epoch = c.epoch)
    (ho : d.owner = c.owner) : d.Sound bs :=
  h.goto (hp ▸ h.averaged) (hp ▸ h.fit) (by rw [hq]; exact h.queued) he ho

/-- A mutation that does something joins the waiting batch, or begins one at the plan of the owner. -/
theorem apply (h : c.Sound bs) {m : Mutation} (hm : m.Keyed)
    (averaged : Averaged ((Coordinator.apply m).run c).2.plan) : ((Coordinator.apply m).run c).2.Sound bs := by
  rcases c.apply_cases m with ⟨f, state, hr⟩ | ⟨e, plan, state, made, nothing, hr⟩ |
    ⟨snapshot, e, plan, signedIn, hs, made, -, r, cache, log, state, hr, -⟩ <;> rw [hr] at averaged ⊢
  · exact h.rest rfl rfl rfl rfl
  · exact h.rest ((Mutation.done made).eq_of_isEmpty nothing) rfl rfl rfl
  · obtain ⟨user, hu⟩ := Option.isSome_iff_exists.1 signedIn
    have fit : Fit user c.plan := h.fit user hu
    obtain ⟨stays, -, -, b, hq, hb⟩ := enqueue_frame { c with state := .applying, plan } snapshot m e
    -- the plan is the new one, and the batch that waits has the mutation behind its others
    refine h.goto averaged (fun user' hu' => ?_) (fun b' hb' => ?_) ((stays_restartTimer _).epoch.trans stays.epoch)
      (c.changed_owner snapshot m e plan)
    · cases hu.symm.trans hu'
      exact (c.changed_plan snapshot m e plan).symm ▸ fit.mutate hm.plain made
    · cases ((restartTimer_queued _).trans hq).symm.trans hb'
      rcases hb with waited | ⟨-, rfl⟩
      · obtain ⟨epoch, safe⟩ := h.queued b waited
        obtain ⟨user', hu', hb, average⟩ := safe.taken epoch
        cases hu.symm.trans hu'
        exact ⟨epoch, safe.begun, fun _ => ⟨user, hu, hb.push made fit hm.plain, average⟩⟩
      · have new : Batch.Fit user { serial := c.fresh, snapshot, epoch := c.epoch } := .new fit hs _ _ _
        refine ⟨rfl, Nat.le_refl _, fun _ => ⟨user, hu, new.push made fit hm.plain, fun s hs' => ?_⟩⟩
        rw [fit.snapshot] at hs
        cases hs
        exact h.averaged s (mem_sorted.1 hs')

/-- A flush finds nothing to write, or lists its batch. -/
theorem beginFlush_ok (h : c.Sound bs) :
    (c.queued = none ∧ Coordinator.beginFlush.run c = (.ok none, c.stopTimer)) ∨
      ∃ b write, c.queued = some b ∧ Coordinator.beginFlush.run c = (.ok (some (c.closed b, write)),
        { c.stopTimer with queued := none, inFlight := c.inFlight ++ [c.closed b], state := .pending }) := by
  rcases c.beginFlush_cases with nothing | ⟨b, hb, ⟨f, -, broken⟩ | ⟨ps, gone, -, -, hr⟩⟩
  · exact .inl nothing
  · obtain ⟨epoch, safe⟩ := h.queued b hb
    obtain ⟨user, hu, fit, -⟩ := safe.taken epoch
    have closed : (c.closed b).Fit user := fit_closed c fit
    obtain ⟨ps, hps, -⟩ := payloads_ok (h.fit user hu) closed h.averaged
    obtain ⟨gone, hgone, -⟩ := goneIds_ok (h.fit user hu) closed
    exact absurd hgone (broken ps gone hps)
  · exact .inr ⟨b, _, hb, hr⟩

theorem beginFlush (h : c.Sound bs) : (Coordinator.beginFlush.run c).2.Sound bs ∧
    ∀ b write, (Coordinator.beginFlush.run c).1 = .ok (some (b, write)) →
      (Coordinator.beginFlush.run c).2.Safe b := by
  rcases h.beginFlush_ok with ⟨-, hr⟩ | ⟨b, write, hb, hr⟩ <;> rw [hr]
  · exact ⟨h.rest (by simp) (by simp) (by simp) (by simp), nofun⟩
  · refine ⟨h.goto (by simpa using h.averaged) (by simpa using h.fit) nofun (by simp) (by simp),
      fun b' write' hw => ?_⟩
    cases hw
    obtain ⟨-, safe⟩ := h.queued b hb
    have closed : c.Safe (c.closed b) := ⟨safe.begun, fun he =>
      let ⟨user, hu, fit, average⟩ := safe.taken he
      ⟨user, hu, fit_closed c fit, average⟩⟩
    exact closed.congr (stopTimer_epoch c) (stopTimer_owner c)

/-- The end of a write that is listed raises nothing, unless the plan that comes back is too long for the cache. -/
theorem finishFlush_ok (h : c.Sound bs) (hb : b ∈ bs) {rest : List Batch} (hd : dropBatch? b c.inFlight = some rest)
    (outcome : Option String) (saves : ¬ BreaksOff ((Coordinator.finishFlush b outcome).run c).1) :
    ((Coordinator.finishFlush b outcome).run c).1.isOk = true := by
  have safe := h.writing b hb
  rcases c.finishFlush_cases b outcome with ⟨none, -⟩ |
    ⟨rest, -, ⟨-, log, state, hr⟩ | ⟨-, -, state, hr⟩ |
      ⟨he, -, cause, -, ⟨f, hf, hr⟩ | ⟨log, hr⟩⟩ |
      ⟨he, -, cause, -, ⟨f, hf, hr⟩ |
        ⟨plan, hplan, r, cache, log, lastFailure, inFlight, lastOutcome, state, hr, -, -, -, hinges⟩⟩⟩
  · rw [hd] at none; cases none
  · rw [hr]; rfl
  · rw [hr]; rfl
  · obtain ⟨user, hu, fit, -⟩ := safe.taken he
    obtain ⟨ids, hids, -⟩ := fit.sortedSemesters
    rw [hids] at hf; cases hf
  · rw [hr]; rfl
  · obtain ⟨user, hu, fit, -⟩ := safe.taken he
    obtain ⟨restored, -⟩ := fit.restore (h.fit user hu)
    rw [restored] at hf; cases hf
  · obtain ⟨user, hu, fit, average⟩ := safe.taken he
    obtain ⟨restored, fits, -⟩ := fit.restore (h.fit user hu)
    rw [restored] at hplan
    cases hplan
    obtain ⟨ids, hids, -⟩ := fit.sortedSemesters
    rw [hr] at saves ⊢
    rcases hinges ids hids with ⟨x, rfl⟩ | ⟨f, raised, rfl⟩
    · rfl
    · exact absurd (breaksOff_error.2 (Plan.saved_too_long fits.dated average _ f raised)) saves

/-- A write that ends keeps the plan, or goes back to a plan of the owner; what could not be written waits again. -/
theorem finishFlush (h : c.Sound bs) (hb : b ∈ bs) (outcome : Option String) :
    ((Coordinator.finishFlush b outcome).run c).2.Sound bs := by
  have safe := h.writing b hb
  rcases c.finishFlush_cases b outcome with ⟨-, f, hr⟩ |
    ⟨rest, -, ⟨-, log, state, hr⟩ | ⟨-, -, state, hr⟩ |
      ⟨he, -, cause, -, ⟨f, -, hr⟩ | ⟨log, hr⟩⟩ |
      ⟨he, -, cause, -, ⟨f, -, hr⟩ |
        ⟨plan, hplan, r, cache, log, lastFailure, inFlight, lastOutcome, state, hr, -⟩⟩⟩ <;> rw [hr]
  · exact h
  · exact h.rest rfl rfl rfl rfl
  · exact h.rest rfl rfl rfl rfl
  · exact h.rest rfl rfl rfl rfl
  · obtain ⟨user, hu, fit, average⟩ := safe.taken he
    obtain ⟨stays, hp, b₀, hq, hb₀⟩ := requeue_frame ({ c with inFlight := rest, log }.mark b.serial .pending) b
    have plan : (({ c with inFlight := rest, log }.mark b.serial .pending).requeue b).settled.plan = c.plan := hp
    -- whatever waited goes back to the older snapshot from now on, which is one of the same user
    refine h.goto (plan.symm ▸ h.averaged) (plan.symm ▸ h.fit) (fun b' hb' => ?_) stays.epoch (requeue_owner _ b)
    cases hq.symm.trans hb'
    rcases hb₀ with waited | ⟨-, rfl⟩
    · obtain ⟨epoch, safe₀⟩ := h.queued b₀ waited
      obtain ⟨user', hu', fit₀, -⟩ := safe₀.taken epoch
      cases hu.symm.trans hu'
      exact ⟨epoch, safe₀.begun, fun _ => ⟨user, hu, fit₀.prepend fit, average⟩⟩
    · have empty : Batch.Fit user { serial := c.fresh, snapshot := b.snapshot, epoch := c.epoch, state := .pending } :=
        ⟨fit.taken, nofun, nofun⟩
      exact ⟨rfl, Nat.le_refl _, fun _ => ⟨user, hu, empty.prepend fit, average⟩⟩
  · exact h.rest rfl rfl rfl rfl
  · obtain ⟨user, hu, fit, average⟩ := safe.taken he
    obtain ⟨restored, fits, -⟩ := fit.restore (h.fit user hu)
    rw [restored] at hplan
    cases hplan
    refine h.goto average (fun user' hu' => ?_) h.queued rfl rfl
    cases hu.symm.trans hu'
    exact fits

/-- No batch of an earlier session has a part in the next one. -/
theorem handle (h : c.Sound bs) (event : IdentityEvent) (remote : String → Remote)
    (dated : ∀ s ∈ ((Coordinator.handle event remote).run c).2.plan.semesters, s.Dated)
    (averaged : Averaged ((Coordinator.handle event remote).run c).2.plan) :
    ((Coordinator.handle event remote).run c).2.Sound bs := by
  have anew : ∀ {d : Coordinator}, Averaged d.plan →
    (∀ user, d.owner = some user → Fit user d.plan) → d.queued = none →
      d.epoch = c.epoch + 1 → d.Sound bs := fun averaged fit hq he =>
    ⟨averaged, fit, by rw [hq]; nofun, fun b hb =>
      have old : b.epoch < _ := he ▸ Nat.lt_succ_of_le (h.writing b hb).begun
      ⟨Nat.le_of_lt old, fun same => absurd same (Nat.ne_of_lt old)⟩⟩
  rcases c.handle_cases event remote with ⟨r, hr⟩ | ⟨r, cache, log, state, hr⟩ |
    ⟨user, -, -, r, backend, plan, cache, log, state, hr, loaded⟩ <;> rw [hr] at dated averaged ⊢
  · exact h
  · exact anew averaged nofun rfl rfl
  · refine anew averaged (fun user' hu' => ?_) rfl rfl
    cases hu'
    rcases loaded with rfl | ⟨data, load⟩
    · exact fit_empty user
    · exact fit_load rfl load dated

theorem subset {ds : List Batch} (h : c.Sound bs) (hs : ds ⊆ bs) : c.Sound ds :=
  { h with writing := fun b hb => h.writing b (hs hb) }

end Sound

/-! ## The list of writes -/

/-- The batch leaves the list, and nothing else does. -/
def Removes (b : Batch) (before after : List Batch) : Prop := ∃ l m, before = l ++ b :: m ∧ after = l ++ m

/-- The numbers of the batch that waits and of those that are written. -/
def serials (c : Coordinator) : List Nat := (c.queued.toList ++ c.inFlight).map (·.serial)

/-- What is listed once is not listed elsewhere. -/
theorem unlisted_elsewhere {α : Type} {key : Batch → α} {l m : List Batch} (h : ((l ++ b :: m).map key).Nodup) :
    key b ∉ (l ++ m).map key := by
  rw [List.map_append, List.map_cons, List.nodup_middle, List.nodup_cons, ← List.map_append] at h
  exact h.1

/-- A write removes its own batch if no batch before it has the same number or the same contents. -/
theorem dropBatch?_own {l : List Batch} (m : List Batch) (serials : ∀ x ∈ l, x.serial ≠ b.serial)
    (contents : ∀ x ∈ l, x.same b = false) : dropBatch? b (l ++ b :: m) = some (l ++ m) := by
  induction l with
  | nil => simp [dropBatch?]
  | cons x l ih =>
    obtain ⟨hs, hl⟩ := List.forall_mem_cons.1 serials
    obtain ⟨hc, hk⟩ := List.forall_mem_cons.1 contents
    rw [List.cons_append, dropBatch?, if_neg (by simp [hs, hc]), ih hl hk]
    rfl

/-- If one before it has the same contents, its own batch stays. -/
theorem dropBatch?_twin {l : List Batch} (m : List Batch) {x : Batch} (hx : x ∈ l) (same : x.same b = true) :
    ∃ rest, dropBatch? b (l ++ b :: m) = some rest ∧ b ∈ rest := by
  induction l with
  | nil => cases hx
  | cons y l ih =>
    rw [List.cons_append, dropBatch?]
    split
    · exact ⟨_, rfl, by simp⟩
    · next hy =>
      rcases List.mem_cons.1 hx with rfl | hx
      · simp [same] at hy
      · obtain ⟨rest, hr, mem⟩ := ih hx
        exact ⟨y :: rest, by rw [hr]; rfl, List.mem_cons_of_mem y mem⟩

theorem mark_serials (c : Coordinator) (serial : Nat) (state : SyncState) :
    (c.mark serial state).inFlight.map (·.serial) = c.inFlight.map (·.serial) := by
  simp only [mark, List.map_map]
  refine List.map_congr_left fun x _ => ?_
  simp only [Function.comp_apply]
  split <;> rfl

/-- Marking a batch that is not listed changes nothing. -/
theorem mark_unlisted {serial : Nat} (h : serial ∉ c.inFlight.map (·.serial)) (state : SyncState) :
    (c.mark serial state).inFlight = c.inFlight := by
  refine (List.map_congr_left fun x hx => ?_).trans (List.map_id _)
  have : x.serial ≠ serial := fun he => h (he ▸ List.mem_map_of_mem hx)
  simp [this]

theorem requeue_inFlight (c : Coordinator) (b : Batch) : (c.requeue b).inFlight = c.inFlight := by
  rw [requeue_eq, restartTimer_inFlight]
  unfold joined
  split <;> rfl

/-- What a write leaves on the list: the other batches, of which those with its number are marked. -/
theorem finishFlush_inFlight {rest : List Batch} (hd : dropBatch? b c.inFlight = some rest) (outcome : Option String) :
    ∃ d : Coordinator, d.inFlight = rest ∧ (((finishFlush b outcome).run c).2.inFlight = rest ∨
      ∃ state, ((finishFlush b outcome).run c).2.inFlight = (d.mark b.serial state).inFlight) := by
  refine ⟨{ c with inFlight := rest }, rfl, ?_⟩
  rcases c.finishFlush_cases b outcome with ⟨none, -⟩ |
    ⟨rest', hd', ⟨-, log, state, hr⟩ | ⟨-, -, state, hr⟩ |
      ⟨-, -, cause, -, ⟨f, -, hr⟩ | ⟨log, hr⟩⟩ |
      ⟨-, -, cause, -, ⟨f, -, hr⟩ |
        ⟨plan, -, r, cache, log, lastFailure, inFlight, lastOutcome, state, hr, hi, -⟩⟩⟩
  · rw [hd] at none; cases none
  all_goals
    cases hd.symm.trans hd'
    rw [hr]
  · exact .inl rfl
  · exact .inr ⟨_, rfl⟩
  · exact .inl rfl
  · exact .inr ⟨_, requeue_inFlight _ b⟩
  · exact .inl rfl
  · exact hi.imp id fun hi => ⟨_, hi⟩

/-- A write that ends leaves what waits, or joins it. The session goes on, and the version of the plan does not go
back. -/
theorem finishFlush_queued (c : Coordinator) (b : Batch) (outcome : Option String) :
    let d := ((finishFlush b outcome).run c).2
    d.epoch = c.epoch ∧ c.plan.version ≤ d.plan.version ∧ (d.queued = c.queued ∨ b.epoch = c.epoch ∧
      ∃ b₀ : Batch, d.queued = some (b₀.prepend b) ∧
        (c.queued = some b₀ ∨ c.queued = none ∧ b₀.serial = c.fresh ∧ b₀.epoch = c.epoch)) := by
  rcases c.finishFlush_cases b outcome with ⟨-, f, hr⟩ |
    ⟨rest, -, ⟨-, log, state, hr⟩ | ⟨-, -, state, hr⟩ |
      ⟨he, -, cause, -, ⟨f, -, hr⟩ | ⟨log, hr⟩⟩ |
      ⟨-, -, cause, -, ⟨f, -, hr⟩ |
        ⟨plan, hplan, r, cache, log, lastFailure, inFlight, lastOutcome, state, hr, -⟩⟩⟩ <;> rw [hr]
  · exact ⟨rfl, Nat.le_refl _, .inl rfl⟩
  · exact ⟨rfl, Nat.le_refl _, .inl rfl⟩
  · exact ⟨rfl, Nat.le_refl _, .inl rfl⟩
  · exact ⟨rfl, Nat.le_refl _, .inl rfl⟩
  · obtain ⟨stays, plan, b₀, hq, hb₀⟩ :=
      requeue_frame ({ c with inFlight := rest, log }.mark b.serial .pending) b
    refine ⟨stays.epoch, Nat.le_of_eq (congrArg Plan.version plan).symm, .inr ⟨he, b₀, hq, ?_⟩⟩
    exact hb₀.imp_right fun h => ⟨h.1, by rw [h.2]; rfl, by rw [h.2]; rfl⟩
  · exact ⟨rfl, Nat.le_refl _, .inl rfl⟩
  · obtain ⟨-, rfl⟩ := restore_eq_ok.1 hplan
    exact ⟨rfl, Nat.le_succ _, .inl rfl⟩

/-! ## Tracked sessions -/

/-- What holds as long as every write removes its own batch and every session can end. -/
structure Tracked (c : Coordinator) : Prop where
  counted : c.Counted
  sound : c.Sound c.inFlight
  settled : c.Settled
  distinct : c.serials.Nodup

/-- The last session can end, or nothing waits in it, or something is still being written. -/
def Leaves (c : Coordinator) : Prop := (∃ cache, c.cleared = .ok cache) ∨ c.queued = none ∨ c.inFlight ≠ []

instance (c : Coordinator) : Decidable c.Leaves :=
  decidable_of_iff (c.cleared.isOk = true ∨ c.queued.isNone = true ∨ c.inFlight.isEmpty = false) <| by
    unfold Leaves
    rw [Option.isNone_iff_eq_none, List.isEmpty_eq_false_iff]
    cases c.cleared <;> simp [Except.isOk, Except.toBool]

/-- What a mutation or several of them give: the writes under way stay, and all stay tracked unless the plan is too
long for the cache. -/
def Tracks {α : Type} (c : Coordinator) (r : Except Fault α × Coordinator) : Prop :=
  r.2.inFlight = c.inFlight ∧ ((BreaksOff r.1 ∧ r.2.state = .applying) ∨ (¬ BreaksOff r.1 ∧ r.2.Tracked))

namespace Tracked

/-- Nothing that is pending changed. -/
theorem rest (h : c.Tracked) (hc : d.Counted) (hp : d.plan = c.plan) (hq : d.queued = c.queued)
    (hi : d.inFlight = c.inFlight) (hs : d.state = c.state) (he : d.epoch = c.epoch) (ho : d.owner = c.owner) :
    d.Tracked where
  counted := hc
  sound := hi ▸ h.sound.rest hp hq he ho
  settled := h.settled.congr hs (by rw [hasPending, hq, hi]; rfl)
  distinct := by rw [serials, hq, hi]; exact h.distinct

theorem numbers (h : c.Tracked) : (c.inFlight.map (·.serial)).Nodup := by
  have distinct := h.distinct
  rw [serials, List.map_append] at distinct
  exact distinct.of_append_right

/-- A number that was not given before is none of a batch. -/
theorem fresh_unlisted (h : c.Counted) {l : List Batch} (hl : l ⊆ c.inFlight) : c.fresh ∉ l.map (·.serial) := by
  intro hm
  obtain ⟨b, hb, he⟩ := List.mem_map.1 hm
  exact absurd (h.inFlight b (hl hb)).1 (by simp [he])

/-- A mutation settles the state, or stops in the middle because the plan is too long for the cache. -/
theorem apply_ends (h : c.Tracked) {m : Mutation} (hm : m.Keyed)
    (averaged : Averaged ((Coordinator.apply m).run c).2.plan) :
    let r := (Coordinator.apply m).run c
    (BreaksOff r.1 ∧ r.2.state = .applying) ∨ (¬ BreaksOff r.1 ∧ r.2.Settled) := by
  rcases c.apply_steps m with ⟨-, hr⟩ | ⟨signedIn, steps⟩
  · rw [hr]
    exact .inr ⟨nofun, h.settled⟩
  obtain ⟨user, hu⟩ := Option.isSome_iff_exists.1 signedIn
  have fit := h.sound.fit user hu
  rcases steps with ⟨f, hs, -⟩ |
    ⟨snapshot, -, ⟨f, raised, hr⟩ |
      ⟨e, plan, made, ⟨-, hr⟩ | ⟨-, ⟨d, -, hr⟩ | ⟨f, d, hd, hr⟩⟩⟩⟩
  · rw [fit.snapshot] at hs
    cases hs
  · have expected : f.Expected := Mutation.raises_apply fit.valid hm f raised
    rw [hr, if_pos expected.1]
    exact .inr ⟨fun stops => expected.2 (breaksOff_error.1 stops), settled_settled _⟩
  · rw [hr]
    exact .inr ⟨nofun, settled_settled _⟩
  · rw [hr]
    exact .inr ⟨nofun, settled_settled _⟩
  · obtain ⟨r, cache, log, hsave, -, hinges⟩ := saveCache_frame (c.changed snapshot m e plan)
    obtain ⟨rfl, rfl⟩ := Prod.mk.inj (hsave.symm.trans hd)
    rw [hr] at averaged ⊢
    have dated := ((Mutation.done made).shaped.dated fit.dated)
    rw [← c.changed_plan snapshot m e plan] at dated
    exact .inl ⟨breaksOff_error.2 (Plan.saved_too_long dated averaged _ f hinges.raised), c.changed_state ..⟩

theorem apply (h : c.Tracked) {m : Mutation} (hm : m.Keyed) (averaged : Averaged ((Coordinator.apply m).run c).2.plan) :
    c.Tracks ((Coordinator.apply m).run c) := by
  have counted := (grows_apply m c h.counted).1
  have sound := h.sound.apply hm averaged
  obtain ⟨-, inFlight, made⟩ := c.apply_made m
  refine ⟨inFlight, (h.apply_ends hm averaged).imp_right fun ⟨carried, settled⟩ => ⟨carried, ?_⟩⟩
  refine ⟨counted, inFlight ▸ sound, settled, ?_⟩
  rcases made with ⟨-, queued⟩ | ⟨snapshot, e, b, -, -, -, queued, hb⟩
  · rw [serials, queued, inFlight]
    exact h.distinct
  · rw [serials, queued, inFlight]
    have distinct := h.distinct
    rcases hb with waited | ⟨nothing, rfl⟩
    · rw [serials, waited] at distinct; exact distinct
    · rw [serials, nothing] at distinct
      exact List.nodup_cons.2 ⟨fresh_unlisted h.counted (List.Subset.refl _), distinct⟩

theorem applyAll (h : c.Tracked) {ms : List Mutation} (keyed : ∀ m ∈ ms, m.Keyed)
    (makes : ∀ ns ∈ ms.inits, Averaged ((Coordinator.applyAll ns).run c).2.plan) :
    c.Tracks ((Coordinator.applyAll ms).run c) := by
  induction ms generalizing c with
  | nil => exact ⟨rfl, .inr ⟨nofun, h⟩⟩
  | cons m ms ih =>
    obtain ⟨hm, hms⟩ := List.forall_mem_cons.1 keyed
    have longer : ∀ ns ∈ ms.inits, Averaged ((Coordinator.applyAll (m :: ns)).run c).2.plan := fun ns hns =>
      makes _ ((List.mem_inits _ _).2 ((List.prefix_cons_inj m).2 ((List.mem_inits _ _).1 hns)))
    have alone := longer [] ((List.mem_inits _ _).2 List.nil_prefix)
    rcases applyAll_cons m c with ⟨refusals, refused, goes⟩ | ⟨f, raised, stops⟩
    · obtain ⟨inFlight, ⟨broken, -⟩ | ⟨-, tracked⟩⟩ := h.apply hm (by rw [goes] at alone; exact alone)
      · cases refusals _ broken
      obtain ⟨rest, outcome⟩ := ih tracked hms fun ns hns => by
        have good := longer ns hns
        rw [goes] at good
        exact good
      rw [goes]
      refine ⟨rest.trans inFlight, ?_⟩
      revert outcome
      rcases (Coordinator.applyAll ms).run ((Coordinator.apply m).run c).2 with ⟨f | fs, d⟩ <;> intro outcome
      · exact outcome
      · exact outcome.imp (fun ⟨broken, _⟩ => by cases broken) fun ⟨_, tracked⟩ => ⟨nofun, tracked⟩
    · rw [stops] at alone ⊢
      have once := h.apply hm alone
      simpa only [Tracks, raised, breaksOff_error] using once

theorem retry (h : c.Tracked) {failure : SyncFailure} (keyed : ∀ m ∈ failure.mutations, m.Keyed)
    (makes : ∀ ms ∈ failure.mutations.inits,
      Averaged ((Coordinator.retry { failure with mutations := ms }).run c).2.plan) :
    c.Tracks ((Coordinator.retry failure).run c) := by
  simp only [Coordinator.retry, run_bind, run_get] at makes ⊢
  by_cases ho : failure.user = c.owner
  · simp only [ho, bne_self_eq_false, Bool.false_eq_true, ↓reduceIte] at makes ⊢
    exact h.applyAll keyed makes
  · have other : (failure.user != c.owner) = true := by simpa using ho
    simp only [other, ↓reduceIte, run_bind, run_throw]
    refine ⟨rfl, .inr ⟨fun broken => ?_, h⟩⟩
    cases broken

/-- A flush stops the timer, or its batch goes to the end of the list. -/
theorem beginFlush (h : c.Tracked) : (Coordinator.beginFlush.run c).2.Tracked := by
  have counted := (grows_beginFlush c h.counted).1
  rcases h.sound.beginFlush_ok with ⟨-, hr⟩ | ⟨b, write, hb, hr⟩
  · rw [hr] at counted ⊢
    exact h.rest counted (by simp) (by simp) (by simp) (by simp) (by simp) (by simp)
  · have begun := h.sound.beginFlush
    rw [hr] at counted begun ⊢
    obtain ⟨sound, safe⟩ := begun
    refine ⟨counted, ⟨sound.averaged, sound.fit, nofun, ?_⟩, by simp [Settled, hasPending], ?_⟩
    · exact List.forall_mem_append.2 ⟨sound.writing, by simpa using safe _ _ rfl⟩
    · have distinct := h.distinct
      rw [serials, hb] at distinct
      simpa [serials, closed, List.nodup_append_comm, and_comm] using distinct

/-- A write that has no twin before it removes its own batch, however it ends. -/
theorem finishFlush_removes (h : c.Tracked) {l m : List Batch} (listed : c.inFlight = l ++ b :: m)
    (own : ∀ x ∈ l, x.same b = false) (outcome : Option String) :
    dropBatch? b c.inFlight = some (l ++ m) ∧ ((Coordinator.finishFlush b outcome).run c).2.inFlight = l ++ m := by
  have other : b.serial ∉ (l ++ m).map (·.serial) := unlisted_elsewhere (listed ▸ h.numbers)
  have dropped : dropBatch? b c.inFlight = some (l ++ m) := by
    rw [listed]
    exact dropBatch?_own m (fun x hx he => other (he ▸ List.mem_map_of_mem (List.mem_append_left m hx))) own
  refine ⟨dropped, ?_⟩
  obtain ⟨d, hd, rest | ⟨state, marked⟩⟩ := finishFlush_inFlight dropped outcome
  · exact rest
  · rw [marked, mark_unlisted (by rw [hd]; exact other), hd]

/-- A write that removes its own batch raises nothing, unless the plan that comes back is too long for the cache. -/
theorem finishFlush (h : c.Tracked) {l m : List Batch} (listed : c.inFlight = l ++ b :: m)
    (own : ∀ x ∈ l, x.same b = false) (outcome : Option String)
    (saves : ¬ BreaksOff ((Coordinator.finishFlush b outcome).run c).1) :
    ((Coordinator.finishFlush b outcome).run c).1.isOk = true ∧
    ((Coordinator.finishFlush b outcome).run c).2.Tracked := by
  have counted := (grows_finishFlush b outcome c h.counted).1
  have mem : b ∈ c.inFlight := by simp [listed]
  have fewer : (l ++ m).Sublist c.inFlight := by rw [listed]; simp
  obtain ⟨dropped, inFlight⟩ := h.finishFlush_removes listed own outcome
  have ok := h.sound.finishFlush_ok mem dropped outcome saves
  have sound := h.sound.finishFlush mem outcome
  -- only an end that raises leaves the state of before
  have settled : ((Coordinator.finishFlush b outcome).run c).2.Settled := by
    rcases c.finishFlush_ends b outcome with ⟨-, settled⟩ | ⟨raised, -⟩
    · exact settled
    · rw [ok] at raised; cases raised
  refine ⟨ok, counted, inFlight ▸ sound.subset fewer.subset, settled, ?_⟩
  have distinct : ((c.queued.toList ++ (l ++ m)).map (·.serial)).Nodup :=
    ((fewer.append_left _).map _).nodup h.distinct
  rw [serials, inFlight]
  obtain ⟨-, -, joins⟩ := c.finishFlush_queued b outcome
  rcases joins with queued | ⟨-, b₀, queued, waited | ⟨nothing, new, -⟩⟩ <;> rw [queued]
  · exact distinct
  · rw [waited] at distinct; exact distinct
  · rw [nothing] at distinct
    refine List.nodup_cons.2 ⟨?_, distinct⟩
    -- the batch waits under a new number, not under its own
    show (b₀.prepend b).serial ∉ (l ++ m).map (·.serial)
    rw [show (b₀.prepend b).serial = c.fresh from new]
    exact fresh_unlisted h.counted fewer.subset

/-- A session that ends leaves the writes under way, and the state tells of them. -/
theorem handle (h : c.Tracked) {event : IdentityEvent} {remote : String → Remote}
    (leaves : ((Coordinator.handle event remote).run c).2 = c ∨ c.Leaves)
    (dated : ∀ s ∈ ((Coordinator.handle event remote).run c).2.plan.semesters, s.Dated)
    (averaged : Averaged ((Coordinator.handle event remote).run c).2.plan) :
    ((Coordinator.handle event remote).run c).2.Tracked ∧
      ((Coordinator.handle event remote).run c).2.inFlight = c.inFlight := by
  have counted := (grows_handle event remote c h.counted).1
  have sound := h.sound.handle event remote dated averaged
  rcases c.handle_ends event remote with unchanged | ⟨queued, inFlight, ends⟩
  · rw [unchanged]; exact ⟨h, rfl⟩
  refine ⟨⟨counted, inFlight ▸ sound, ?_, ?_⟩, inFlight⟩
  · rcases ends with ⟨-, settled⟩ | ⟨⟨f, hf⟩, state⟩
    · exact settled
    · -- the state is that of before, so something must still be pending if something was
      rcases leaves with unchanged | ⟨cache, hc⟩ | nothing | writing
      · rw [unchanged]; exact h.settled
      · rw [hf] at hc; cases hc
      · exact h.settled.congr state (by rw [hasPending, queued, inFlight, hasPending, nothing])
      · exact h.settled.congr state (by simp [hasPending, queued, inFlight, writing])
  · rw [serials, queued, inFlight]
    exact ((List.sublist_append_right _ _).map _).nodup h.distinct

end Tracked

end Coordinator
end DegreePlan.Sync
