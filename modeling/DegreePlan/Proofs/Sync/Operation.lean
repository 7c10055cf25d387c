import DegreePlan.Proofs.Cache
import DegreePlan.Proofs.Plan.Filed
import DegreePlan.Sync.Coordinator

/-!
# Operations step by step

What the parts of an operation do to a coordinator.
-/

namespace DegreePlan.Sync

/-- The stored semesters, null if there are none or they cannot be had. -/
def Remote.data (remote : Remote) : Json :=
  match remote.stored with
  | some (.ok data) => data
  | _ => .null

namespace Coordinator

variable {α β : Type} (c : Coordinator)

@[simp] theorem run_pure (a : α) : (pure a : Action α).run c = (.ok a, c) := rfl

@[simp] theorem run_throw (f : Fault) : (throw f : Action α).run c = (.error f, c) := rfl

@[simp] theorem run_get : (get : Action Coordinator).run c = (.ok c, c) := rfl

@[simp] theorem run_set (d : Coordinator) : (set d : Action Unit).run c = (.ok (), d) := rfl

@[simp] theorem run_modify (f : Coordinator → Coordinator) : (modify f : Action Unit).run c = (.ok (), f c) := rfl

@[simp] theorem run_mk (r : Except Fault α) : (ExceptT.mk (pure r) : Action α).run c = (r, c) := rfl

theorem run_bind (x : Action α) (f : α → Action β) :
    (x >>= f).run c = match x.run c with
      | (.ok a, d) => (f a).run d
      | (.error e, d) => (.error e, d) := by
  rw [DegreePlan.run_bind]
  rcases x.run c with ⟨_ | _, d⟩ <;> rfl

theorem run_tryCatch (x : Action α) (f : Fault → Action α) :
    (tryCatch x f : Action α).run c = match x.run c with
      | (.ok a, d) => (.ok a, d)
      | (.error e, d) => (f e).run d := by
  simp only [tryCatch, tryCatchThe, MonadExceptOf.tryCatch, ExceptT.tryCatch, ExceptT.run, ExceptT.mk, bind,
    StateT.bind]
  rcases h : x c with ⟨_ | _, d⟩ <;> rfl

theorem run_settle : settle.run c = (.ok (), c.settled) := rfl

/-- What holds before an operation holds after it, whether it succeeds or not. -/
def Keeps (P : Coordinator → Prop) (x : Action α) : Prop := ∀ c, P c → P (x.run c).2

theorem keeps_pure {P : Coordinator → Prop} (a : α) : Keeps P (pure a) := fun _ h => h

theorem keeps_bind {P : Coordinator → Prop} {x : Action α} {f : α → Action β} (h : Keeps P x)
    (k : ∀ a, Keeps P (f a)) : Keeps P (x >>= f) := by
  intro c hc
  rw [run_bind]
  have hx := h c hc
  revert hx
  rcases x.run c with ⟨e | a, d⟩ <;> intro hd
  · exact hd
  · exact k a d hd

theorem keeps_tryCatch {P : Coordinator → Prop} {x : Action α} {f : Fault → Action α} (h : Keeps P x)
    (k : ∀ e, Keeps P (f e)) : Keeps P (tryCatch x f) := by
  intro c hc
  rw [run_tryCatch]
  have hx := h c hc
  revert hx
  rcases x.run c with ⟨e | a, d⟩ <;> intro hd
  · exact k e d hd
  · exact hd

/-! ## Timers -/

@[simp] theorem stopTimer_cache : c.stopTimer.cache = c.cache := by unfold stopTimer; split <;> rfl

@[simp] theorem stopTimer_listeners : c.stopTimer.listeners = c.listeners := by unfold stopTimer; split <;> rfl

@[simp] theorem stopTimer_epoch : c.stopTimer.epoch = c.epoch := by unfold stopTimer; split <;> rfl

@[simp] theorem stopTimer_owner : c.stopTimer.owner = c.owner := by unfold stopTimer; split <;> rfl

@[simp] theorem stopTimer_backend : c.stopTimer.backend = c.backend := by unfold stopTimer; split <;> rfl

@[simp] theorem stopTimer_plan : c.stopTimer.plan = c.plan := by unfold stopTimer; split <;> rfl

@[simp] theorem stopTimer_queued : c.stopTimer.queued = c.queued := by unfold stopTimer; split <;> rfl

@[simp] theorem stopTimer_inFlight : c.stopTimer.inFlight = c.inFlight := by unfold stopTimer; split <;> rfl

@[simp] theorem stopTimer_state : c.stopTimer.state = c.state := by unfold stopTimer; split <;> rfl

@[simp] theorem stopTimer_fresh : c.stopTimer.fresh = c.fresh := by unfold stopTimer; split <;> rfl

/-! ## The cache -/

/-- Saving a plan raises nothing: there is no cache, or the plan can be written. -/
def Saves (p : Plan) : Prop := c.cache = none ∨ p.Written

instance : DecidablePred c.Saves := fun p => inferInstanceAs (Decidable (c.cache = none ∨ p.Written))

/-- The cache after the plan was saved. A plan that cannot be written leaves the file of the owner as it was. -/
def savedCache : Option Cache :=
  match c.cache, c.owner with
  | some cache, some user =>
    match c.plan.filed with
    | .ok semesters => some (cache.save user semesters).cache
    | .error _ => some cache
  | cache, _ => cache

theorem savedCache_unsaved (h : c.cache = none ∨ c.owner = none) : c.savedCache = c.cache := by
  unfold savedCache
  split
  · next hc ho => simp [hc, ho] at h
  · rfl

theorem savedCache_none (h : c.cache = none) : c.savedCache = none := (c.savedCache_unsaved (.inl h)).trans h

theorem savedCache_congr {c d : Coordinator} (cache : d.cache = c.cache) (owner : d.owner = c.owner)
    (plan : d.plan = c.plan) : d.savedCache = c.savedCache := by
  unfold savedCache
  rw [cache, owner, plan]

/-- What a save raises. Where the directory of the cache cannot be used, the save is only warned of. -/
def saved (p : Plan) : Option Cache → Except Fault Unit
  | none => .ok ()
  | some cache => do
    let semesters ← p.filed
    if cache.Free ∧ semesters.isWritable = false then .error (.value .integerTooLongToWrite) else .ok ()

theorem saved_of_written {p : Plan} (written : p.Written) (cache : Option Cache) : saved p cache = .ok () := by
  obtain ⟨json, exported, written⟩ := written
  cases cache with
  | none => rfl
  | some cache =>
    simp only [saved, Plan.filed_of_isWritable exported written, ok_bind, written, reduceCtorEq, and_false, if_false]

/-- A save changes the cache and the log at most. -/
theorem saveCache_eq {user : String} (ho : c.owner = some user) :
    ∃ log, saveCache.run c = (saved c.plan c.cache, { c with cache := c.savedCache, log }) := by
  obtain ⟨_ | cache⟩ := c
  · exact ⟨_, by simp only [saveCache, run_bind, run_get]; rfl⟩
  dsimp only at ho
  subst ho
  simp only [saveCache, run_bind, run_get, saveCache.liftExcept, run_mk, savedCache, saved]
  generalize Plan.filed _ = filed
  cases filed with
  | error f => exact ⟨_, rfl⟩
  | ok semesters =>
    simp only [run_set, ok_bind]
    by_cases free : cache.Free
    · cases written : semesters.isWritable with
      | true =>
        obtain ⟨d, saves, -⟩ := Cache.save_ok free user written
        rw [saves, if_neg (by simp)]
        exact ⟨_, rfl⟩
      | false =>
        obtain ⟨d, breaks, -⟩ := Cache.save_breaks_off free user written
        rw [breaks, if_pos ⟨free, rfl⟩]
        exact ⟨_, rfl⟩
    · rw [Cache.save_blocked (not_not.1 free), if_neg (free ·.1)]
      exact ⟨_, rfl⟩

theorem saveCache_unsaved (h : c.cache = none ∨ c.owner = none) : saveCache.run c = (.ok (), c) := by
  simp only [saveCache, run_bind, run_get]
  split
  · next hc ho => simp [hc, ho] at h
  · rfl

/-- A result that hinges on the save of a plan: it is a success, or what the save raises. -/
def Hinges (p : Plan) (r : Except Fault α) : Prop :=
  (∃ a, r = .ok a) ∨ ∃ f, saved p c.cache = .error f ∧ r = .error f

theorem Hinges.ok {c : Coordinator} {p : Plan} {r : Except Fault α} (h : c.Hinges p r) (saves : c.Saves p) :
    ∃ a, r = .ok a := by
  have saved : saved p c.cache = .ok () := by
    rcases saves with uncached | written
    · rw [uncached]; rfl
    · exact saved_of_written written c.cache
  refine h.resolve_right ?_
  rintro ⟨f, raises, -⟩
  rw [saved] at raises
  cases raises

/-- What hinges on a save and raises, raises what the save raises. -/
theorem Hinges.raised {c : Coordinator} {p : Plan} {f : Fault} (h : c.Hinges p (.error f : Except Fault α)) :
    saved p c.cache = .error f := by
  obtain ⟨_, ⟨⟩⟩ | ⟨_, raises, ⟨⟩⟩ := h
  exact raises

theorem saveCache_frame :
    ∃ r cache log, saveCache.run c = (r, { c with cache, log }) ∧ cache = c.savedCache ∧ c.Hinges c.plan r := by
  obtain ho | ⟨user, ho⟩ := Option.eq_none_or_eq_some c.owner
  · exact ⟨.ok (), c.cache, c.log, c.saveCache_unsaved (.inr ho), (c.savedCache_unsaved (.inr ho)).symm,
      .inl ⟨(), rfl⟩⟩
  · obtain ⟨log, hr⟩ := c.saveCache_eq ho
    refine ⟨_, _, log, hr, rfl, ?_⟩
    cases raises : saved c.plan c.cache with
    | ok u => exact .inl ⟨u, rfl⟩
    | error f => exact .inr ⟨f, raises, rfl⟩

theorem saveCache_uncached {c : Coordinator} (h : c.cache = none) : saveCache.run c = (.ok (), c) :=
  c.saveCache_unsaved (.inl h)

/-! ## Changing the plan -/

/-- What becomes of the coordinator when a change is made. -/
def changed (snapshot : Snapshot) (m : Mutation) (e : Effect) (plan : Plan) : Coordinator :=
  ({ c with state := .applying, plan }.enqueue snapshot m e).restartTimer

theorem changed_plan (snapshot : Snapshot) (m : Mutation) (e : Effect) (plan : Plan) :
    (c.changed snapshot m e plan).plan = plan := by
  simp only [changed, restartTimer, stopTimer_plan]
  unfold enqueue
  split <;> rfl

theorem changed_cache (snapshot : Snapshot) (m : Mutation) (e : Effect) (plan : Plan) :
    (c.changed snapshot m e plan).cache = c.cache := by
  simp only [changed, restartTimer, stopTimer_cache]
  unfold enqueue
  split <;> rfl

theorem changed_owner (snapshot : Snapshot) (m : Mutation) (e : Effect) (plan : Plan) :
    (c.changed snapshot m e plan).owner = c.owner := by
  simp only [changed, restartTimer, stopTimer_owner]
  unfold enqueue
  split <;> rfl

theorem changed_state (snapshot : Snapshot) (m : Mutation) (e : Effect) (plan : Plan) :
    (c.changed snapshot m e plan).state = .applying := by
  simp only [changed, restartTimer, stopTimer_state]
  unfold enqueue
  split <;> rfl

theorem changed_savedCache (snapshot : Snapshot) (m : Mutation) (e : Effect) (plan : Plan) :
    (c.changed snapshot m e plan).savedCache = savedCache { c with plan } :=
  savedCache_congr (c.changed_cache snapshot m e plan) (c.changed_owner snapshot m e plan)
    (c.changed_plan snapshot m e plan)

/-- A mutation step by step: somebody must be signed in, the plan must be listed for the snapshot, the mutation must be
made, and if it does something, the new plan must be saved. -/
theorem apply_steps (m : Mutation) :
    (c.owner = none ∧ (apply m).run c = (.error (.plan .notSignedIn), c)) ∨ c.owner.isSome = true ∧
      ((∃ f, c.plan.snapshot = .error f ∧ (apply m).run c = (.error f, { c with state := .applying })) ∨
      ∃ snapshot, c.plan.snapshot = .ok snapshot ∧
        ((∃ f, m.apply c.plan = .error f ∧ (apply m).run c =
          (.error f, if f.isRefusal || f.isUnacceptable then c.settled else { c with state := .applying })) ∨
        ∃ e plan, m.apply c.plan = .ok (e, plan) ∧
          ((e.isEmpty = true ∧ (apply m).run c = (.ok (), settled { c with plan })) ∨
          e.isEmpty = false ∧
            ((∃ d, saveCache.run (c.changed snapshot m e plan) = (.ok (), d) ∧
              (apply m).run c = (.ok (), d.settled)) ∨
            ∃ f d, saveCache.run (c.changed snapshot m e plan) = (.error f, d) ∧
              (apply m).run c = (.error f, d))))) := by
  simp only [apply, run_bind, run_get]
  split
  · next ho => exact .inl ⟨Option.isNone_iff_eq_none.1 ho, rfl⟩
  next ho =>
  refine .inr ⟨Option.isSome_iff_ne_none.2 (mt Option.isNone_iff_eq_none.2 ho), ?_⟩
  simp only [run_bind, run_set, run_mk]
  cases hs : c.plan.snapshot with
  | error f => exact .inl ⟨f, rfl, rfl⟩
  | ok snapshot =>
    refine .inr ⟨snapshot, rfl, ?_⟩
    dsimp only
    cases hm : m.apply c.plan with
    | error f =>
      refine .inl ⟨f, rfl, ?_⟩
      dsimp only
      split <;> rfl
    | ok made =>
      obtain ⟨e, plan⟩ := made
      refine .inr ⟨e, plan, rfl, ?_⟩
      simp only [run_bind, run_modify]
      cases he : e.isEmpty with
      | true => exact .inl ⟨rfl, rfl⟩
      | false =>
        refine .inr ⟨rfl, ?_⟩
        simp only [Bool.not_false, ↓reduceIte, run_bind, run_modify]
        rcases saves : saveCache.run (c.changed snapshot m e plan) with ⟨f | u, d⟩
        · rw [changed] at saves
          exact .inr ⟨f, d, rfl, by rw [saves]⟩
        · rw [changed] at saves
          exact .inl ⟨d, rfl, by rw [saves]; rfl⟩

/-- A mutation is refused, or finds nothing to do, or is made and waits to be written. -/
theorem apply_cases (m : Mutation) :
    (∃ f state, (apply m).run c = (.error f, { c with state })) ∨
    (∃ e plan state, m.apply c.plan = .ok (e, plan) ∧ e.isEmpty = true ∧
      (apply m).run c = (.ok (), { c with plan, state })) ∨
    (∃ snapshot e plan, c.owner.isSome = true ∧ c.plan.snapshot = .ok snapshot ∧
      m.apply c.plan = .ok (e, plan) ∧
      e.isEmpty = false ∧
      ∃ r cache log state, (apply m).run c = (r, { c.changed snapshot m e plan with cache, log, state }) ∧
        cache = savedCache { c with plan }) := by
  rcases c.apply_steps m with ⟨-, hr⟩ |
    ⟨signedIn, ⟨f, -, hr⟩ | ⟨snapshot, hs, ⟨f, -, hr⟩ | ⟨e, plan, hm, nothing | ⟨does, saves⟩⟩⟩⟩
  · exact .inl ⟨_, _, hr⟩
  · exact .inl ⟨f, _, hr⟩
  · refine .inl ⟨f, ?_⟩
    split at hr
    · exact ⟨_, hr⟩
    · exact ⟨_, hr⟩
  · exact .inr (.inl ⟨e, plan, _, hm, nothing⟩)
  · refine .inr (.inr ⟨snapshot, e, plan, signedIn, hs, hm, does, ?_⟩)
    obtain ⟨r, cache, log, hsave, hn, -⟩ := saveCache_frame (c.changed snapshot m e plan)
    rw [c.changed_savedCache] at hn
    rcases saves with ⟨d, hd, hr⟩ | ⟨f, d, hd, hr⟩
    · obtain ⟨-, rfl⟩ := Prod.mk.inj (hsave.symm.trans hd)
      exact ⟨_, cache, log, _, hr, hn⟩
    · obtain ⟨-, rfl⟩ := Prod.mk.inj (hsave.symm.trans hd)
      exact ⟨_, cache, log, _, hr, hn⟩

/-- A mutation that does something is made, however the save of the new plan ends. -/
theorem apply_does {m : Mutation} {snapshot : Snapshot} {e : Effect} {plan : Plan} (ho : c.owner.isSome = true)
    (hs : c.plan.snapshot = .ok snapshot) (hm : m.apply c.plan = .ok (e, plan)) (he : e.isEmpty = false) :
    ∃ r cache log state, (apply m).run c = (r, { c.changed snapshot m e plan with cache, log, state }) ∧
      cache = savedCache { c with plan } ∧ c.Hinges plan r := by
  have signedIn : c.owner.isNone = false := by rw [← Option.not_isSome, ho]; rfl
  obtain ⟨r, cache, log, hr, hn, hinges⟩ := saveCache_frame (c.changed snapshot m e plan)
  rw [Hinges, changed_plan, changed_cache] at hinges
  rw [c.changed_savedCache] at hn
  simp only [apply, run_bind, run_get, signedIn, Bool.false_eq_true, ↓reduceIte, run_set, run_mk, hs, hm,
    run_modify, he, Bool.not_false]
  rw [changed] at hr
  rw [hr]
  cases r with
  | error f => exact ⟨_, cache, log, _, rfl, hn, hinges⟩
  | ok u => exact ⟨_, cache, log, _, rfl, hn, .inl ⟨_, rfl⟩⟩

/-- Mutations that are applied one by one keep what each of them keeps. -/
theorem applyAll_keeps {P : Coordinator → Prop} {ms : List Mutation} (h : ∀ m ∈ ms, Keeps P (apply m)) :
    Keeps P (applyAll ms) := by
  induction ms with
  | nil => exact keeps_pure []
  | cons m ms ih =>
    obtain ⟨hm, hms⟩ := List.forall_mem_cons.1 h
    unfold applyAll
    refine keeps_bind (keeps_tryCatch (keeps_bind hm fun _ => keeps_pure []) fun f => ?_) fun _ =>
      keeps_bind (ih hms) fun _ => keeps_pure _
    split
    · exact keeps_pure _
    · exact fun _ hc => hc

theorem retry_keeps {P : Coordinator → Prop} {failure : SyncFailure}
    (h : ∀ m ∈ failure.mutations, Keeps P (apply m)) : Keeps P (retry failure) := by
  intro c hc
  simp only [retry, run_bind, run_get]
  split
  · exact hc
  · exact applyAll_keeps h c hc

/-! ## Writing -/

/-- The batch as it is when its write begins. -/
def closed (b : Batch) : Batch := { b with closedAt := some c.plan.version }

/-- A flush finds nothing to write, or cannot say what to write and loses the batch, or lists it as
being written. -/
theorem beginFlush_cases :
    (c.queued = none ∧ beginFlush.run c = (.ok none, c.stopTimer)) ∨
    ∃ b, c.queued = some b ∧
      ((∃ f, beginFlush.run c = (.error f, { c.stopTimer with queued := none }) ∧
        ∀ ps gone, payloads c.plan (c.closed b) = .ok ps → goneIds c.plan (c.closed b) ≠ .ok gone) ∨
      ∃ ps gone, payloads c.plan (c.closed b) = .ok ps ∧ goneIds c.plan (c.closed b) = .ok gone ∧
        beginFlush.run c = (.ok (some (c.closed b, { backend := c.backend, deleted := gone, payloads := ps })),
          { c.stopTimer with queued := none, inFlight := c.inFlight ++ [c.closed b], state := .pending })) := by
  simp only [beginFlush, run_bind, run_get, run_modify, stopTimer_queued, stopTimer_plan]
  cases hqb : c.queued with
  | none => exact .inl ⟨rfl, rfl⟩
  | some b =>
    refine .inr ⟨b, rfl, ?_⟩
    simp only [run_bind, run_set, run_mk, closed]
    cases payloads c.plan { b with closedAt := some c.plan.version } with
    | error f => exact .inl ⟨f, rfl, nofun⟩
    | ok ps =>
      cases goneIds c.plan { b with closedAt := some c.plan.version } with
      | error f => exact .inl ⟨f, rfl, nofun⟩
      | ok gone =>
        refine .inr ⟨ps, gone, rfl, rfl, ?_⟩
        simp

/-- The batch that could not be written stands in front of the waiting one. -/
def joined (b : Batch) : Coordinator :=
  match c.queued with
  | some waiting => { c with queued := some (waiting.prepend b) }
  | none =>
    let waiting : Batch :=
      { serial := c.fresh, snapshot := b.snapshot, epoch := c.epoch, state := .pending }
    { c with queued := some (waiting.prepend b), fresh := c.fresh + 1 }

theorem requeue_eq (b : Batch) : c.requeue b = (c.joined b).restartTimer := rfl

theorem dropBatch?_sublist {b : Batch} {l rest : List Batch} (h : dropBatch? b l = some rest) : rest.Sublist l := by
  induction l generalizing rest with
  | nil => cases h
  | cons x l ih =>
    unfold dropBatch? at h
    split at h
    · cases h; exact List.sublist_cons_self x l
    · obtain ⟨r, hr, rfl⟩ := Option.map_eq_some_iff.1 h
      exact (ih hr).cons_cons x

/-- Going back changes the plan first; a fault after that keeps the plan. -/
theorem rollBack_cases (b : Batch) (cause : String) :
    (∃ f, c.plan.restore b.snapshot = .error f ∧ (rollBack b cause).run c = (.error f, c)) ∨
    ∃ plan, c.plan.restore b.snapshot = .ok plan ∧ ∃ r cache log lastFailure inFlight,
      (rollBack b cause).run c = (r, { c with plan, cache, log, lastFailure, inFlight }) ∧
      (inFlight = c.inFlight ∨ inFlight = (c.mark b.serial .rolledBack).inFlight) ∧
      cache = savedCache { c with plan } ∧ ∀ ids, b.sortedSemesters = .ok ids → c.Hinges plan r := by
  simp only [rollBack, run_bind, run_get, run_mk]
  cases hr : c.plan.restore b.snapshot with
  | error f => exact .inl ⟨f, rfl, rfl⟩
  | ok plan =>
    refine .inr ⟨plan, rfl, ?_⟩
    simp only [run_set]
    obtain ⟨r, cache, log, hs, hn, hinges⟩ := saveCache_frame { c with plan }
    rw [hs]
    cases r with
    | error f =>
      refine ⟨_, cache, log, c.lastFailure, _, rfl, .inl rfl, hn, fun ids _ => .inr ⟨f, hinges.raised, rfl⟩⟩
    | ok u =>
      dsimp only
      cases b.sortedSemesters with
      | error f => exact ⟨_, cache, log, c.lastFailure, _, rfl, .inr rfl, hn, nofun⟩
      | ok semesters => exact ⟨_, cache, _, _, _, rfl, .inr rfl, hn, fun _ _ => .inl ⟨_, rfl⟩⟩

/-- The failure tells what was taken back. -/
theorem rollBack_failure {b : Batch} {cause : String} {failure : SyncFailure}
    (h : ((rollBack b cause).run c).1 = .ok failure) :
    failure.user = c.owner ∧ failure.mutations = b.mutations := by
  simp only [rollBack, run_bind, run_get, run_mk] at h
  cases hr : c.plan.restore b.snapshot with
  | error f => rw [hr] at h; cases h
  | ok plan =>
    rw [hr] at h
    simp only [run_set] at h
    obtain ⟨r, cache, log, hs, -⟩ := saveCache_frame { c with plan }
    rw [hs] at h
    cases r with
    | error f => cases h
    | ok u =>
      simp only [run_modify] at h
      cases hsort : b.sortedSemesters with
      | error f => rw [hsort] at h; cases h
      | ok semesters =>
        rw [hsort] at h
        cases h
        exact ⟨rfl, rfl⟩

theorem notify_frame (ls : List Listener) : ∃ log, (notify ls).run c = (.ok (), { c with log }) := by
  induction ls generalizing c with
  | nil => exact ⟨c.log, rfl⟩
  | cons l ls ih =>
    simp only [notify, List.forM_eq_forM, List.forM_cons, run_bind] at ih ⊢
    cases l.fault with
    | none => exact ih c
    | some text => exact ih { c with log := _ }

/-- The end of a flush: its batch is not listed, or its write is late, or it succeeded, or it failed
and is written again with newer changes, or it failed and is taken back. -/
theorem finishFlush_cases (b : Batch) (outcome : Option String) :
    (dropBatch? b c.inFlight = none ∧ ∃ f, (finishFlush b outcome).run c = (.error f, c)) ∨
    ∃ rest, dropBatch? b c.inFlight = some rest ∧
      ((b.epoch ≠ c.epoch ∧ ∃ log state,
        (finishFlush b outcome).run c = (.ok { state := b.state }, { c with inFlight := rest, log, state })) ∨
      (b.epoch = c.epoch ∧ outcome = none ∧ ∃ state,
        (finishFlush b outcome).run c = (.ok { state := .committed },
          { { c with inFlight := rest }.mark b.serial .committed with lastOutcome := some .committed, state })) ∨
      (b.epoch = c.epoch ∧ b.closedAt ≠ some c.plan.version ∧ ∃ cause, outcome = some cause ∧
        ((∃ f, b.sortedSemesters = .error f ∧
          (finishFlush b outcome).run c = (.error f, { c with inFlight := rest })) ∨
        ∃ log, (finishFlush b outcome).run c = (.ok { state := .pending },
          (({ c with inFlight := rest, log }.mark b.serial .pending).requeue b).settled))) ∨
      (b.epoch = c.epoch ∧ b.closedAt = some c.plan.version ∧ ∃ cause, outcome = some cause ∧
        ((∃ f, c.plan.restore b.snapshot = .error f ∧
          (finishFlush b outcome).run c = (.error f, { c with inFlight := rest })) ∨
        ∃ plan, c.plan.restore b.snapshot = .ok plan ∧ ∃ r cache log lastFailure inFlight lastOutcome state,
          (finishFlush b outcome).run c =
            (r, { c with plan, cache, log, lastFailure, inFlight, lastOutcome, state }) ∧
          (inFlight = rest ∨ inFlight = ({ c with inFlight := rest }.mark b.serial .rolledBack).inFlight) ∧
          (∀ x, r = .ok x → x.state = .rolledBack) ∧ cache = savedCache { c with plan } ∧
          ∀ ids, b.sortedSemesters = .ok ids → c.Hinges plan r))) := by
  simp only [finishFlush, run_bind, run_get]
  cases hd : dropBatch? b c.inFlight with
  | none => exact .inl ⟨rfl, _, rfl⟩
  | some rest =>
    refine .inr ⟨rest, rfl, ?_⟩
    simp only [run_bind, run_set]
    by_cases he : b.epoch = c.epoch
    · simp only [he, bne_self_eq_false, Bool.false_eq_true, ↓reduceIte]
      cases outcome with
      | none => exact .inr (.inl ⟨trivial, rfl, _, rfl⟩)
      | some cause =>
        by_cases hv : b.closedAt = some c.plan.version
        · refine .inr (.inr (.inr ⟨trivial, hv, cause, rfl, ?_⟩))
          simp only [hv, bne_self_eq_false, Bool.false_eq_true, ↓reduceIte, run_bind]
          rcases rollBack_cases { c with inFlight := rest } b cause with
            ⟨f, hr, hrun⟩ | ⟨plan, hr, r, cache, log, lastFailure, inFlight, hrun, hi, hn, hinges⟩
          · rw [hrun]; exact .inl ⟨f, hr, rfl⟩
          · refine .inr ⟨plan, hr, ?_⟩
            rw [hrun]
            cases r with
            | error f =>
              refine ⟨_, cache, log, lastFailure, inFlight, c.lastOutcome, c.state, rfl, hi, nofun, hn,
                fun ids hs => .inr ⟨f, (hinges ids hs).raised, rfl⟩⟩
            | ok failure =>
              simp only [run_modify, run_settle]
              obtain ⟨log', hnotify⟩ := notify_frame
                { c with plan, cache, log, lastFailure, inFlight, lastOutcome := some .rolledBack }.settled c.listeners
              rw [settled] at hnotify ⊢
              rw [hnotify]
              exact ⟨_, cache, log', lastFailure, inFlight, _, _, rfl, hi, fun x hx => by cases hx; rfl, hn,
                fun _ _ => .inl ⟨_, rfl⟩⟩
        · refine .inr (.inr (.inl ⟨trivial, hv, cause, rfl, ?_⟩))
          have hv' : (b.closedAt != some c.plan.version) = true := by simpa using hv
          simp only [hv', ↓reduceIte, run_bind, run_mk]
          cases b.sortedSemesters with
          | error f => exact .inl ⟨f, rfl, rfl⟩
          | ok semesters => exact .inr ⟨_, rfl⟩
    · have he' : (b.epoch != c.epoch) = true := by simpa using he
      simp only [he', ↓reduceIte]
      exact .inl ⟨he, _, _, rfl⟩

/-- A write that is taken back is reported to all listeners, with its mutations. -/
theorem finishFlush_notice {b : Batch} {outcome : Option String} {x : Flushed}
    (h : ((finishFlush b outcome).run c).1 = .ok x) (he : b.epoch = c.epoch) (hx : x.state = .rolledBack) :
    ∃ failure, x.notice = some (failure, c.listeners) ∧ failure.user = c.owner ∧
      failure.mutations = b.mutations := by
  simp only [finishFlush, run_bind, run_get] at h
  cases hd : dropBatch? b c.inFlight with
  | none => rw [hd] at h; cases h
  | some rest =>
    rw [hd] at h
    simp only [run_bind, run_set, he, bne_self_eq_false, Bool.false_eq_true, ↓reduceIte] at h
    cases outcome with
    | none => cases h; cases hx
    | some cause =>
      by_cases hv : b.closedAt = some c.plan.version
      · simp only [hv, bne_self_eq_false, Bool.false_eq_true, ↓reduceIte, run_bind] at h
        rcases hr : (rollBack b cause).run { c with inFlight := rest } with ⟨f | failure, d⟩
        · rw [hr] at h; cases h
        · have hfailure : failure.user = c.owner ∧ failure.mutations = b.mutations :=
            rollBack_failure { c with inFlight := rest } (congrArg Prod.fst hr)
          rw [hr] at h
          simp only [run_modify, run_settle] at h
          obtain ⟨log, hn⟩ := notify_frame { d with lastOutcome := some .rolledBack }.settled c.listeners
          rw [hn] at h
          cases h
          exact ⟨failure, rfl, hfailure⟩
      · have hv' : (b.closedAt != some c.plan.version) = true := by simpa using hv
        simp only [hv', ↓reduceIte, run_bind, run_mk] at h
        cases hsort : b.sortedSemesters with
        | error f => rw [hsort] at h; cases h
        | ok semesters => rw [hsort] at h; cases h; cases hx

/-! ## The owner -/

theorem requeue_owner (b : Batch) : (c.requeue b).owner = c.owner := by
  rw [requeue_eq]
  simp only [restartTimer, stopTimer_owner, joined]
  split <;> rfl

theorem requeue_cache (b : Batch) : (c.requeue b).cache = c.cache := by
  rw [requeue_eq]
  simp only [restartTimer, stopTimer_cache, joined]
  split <;> rfl

variable {c : Coordinator} (uncached : c.cache = none)

include uncached

end Coordinator
end DegreePlan.Sync
