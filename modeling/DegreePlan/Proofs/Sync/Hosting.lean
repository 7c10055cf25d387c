import DegreePlan.Proofs.Cache
import DegreePlan.Proofs.Sync.Numbers

/-!
# Sessions apart from their past

A used coordinator hosts a session if, for this session, it is like a coordinator that never had
another one: only the numbers of batches, timers and listeners and the epoch are higher, and writes of
earlier sessions may be listed besides its own. Every operation of the session keeps this and gives
the same result in both.
-/

namespace DegreePlan.Sync

/-- A batch under higher numbers. -/
def Batch.shift (serials epochs : Nat) (b : Batch) : Batch :=
  { b with serial := b.serial + serials, epoch := b.epoch + epochs }

/-- A session of a user: how much higher numbers and epochs are than in a first session, and the number
with which the first session began. -/
structure Session where
  user : String
  serials : Nat
  epochs : Nat
  base : Nat

namespace Session

variable (S : Session)

/-- A batch of the session as it is listed after a past. -/
def place (b : Batch) : Batch := b.shift S.serials S.epochs

/-- A batch of the first session. -/
def Own (b : Batch) : Prop := b.epoch = 1 ∧ S.base ≤ b.serial

/-- A batch of an earlier session. -/
def Before (b : Batch) : Prop := b.serial < S.base + S.serials ∧ b.epoch ≤ S.epochs

/-- For the user of the session both caches are the same, and both can be written. -/
def SameCache : Option Cache → Option Cache → Prop
  | none, none => True
  | some a, some b => a.Free ∧ b.Free ∧ a.file? S.user = b.file? S.user
  | _, _ => False

/-- The coordinator `c` hosts the session that the coordinator `s` has as its first. -/
structure Hosts (c s : Coordinator) : Prop where
  isOwner : s.owner = some S.user
  owner : c.owner = s.owner
  backend : c.backend = s.backend
  plan : c.plan = s.plan
  lastFailure : c.lastFailure = s.lastFailure
  first : s.epoch = 1
  epoch : c.epoch = s.epoch + S.epochs
  fresh : c.fresh = s.fresh + S.serials
  base : S.base ≤ s.fresh
  queued : c.queued = s.queued.map S.place
  ownQueued : ∀ b ∈ s.queued, S.Own b
  inFlight : ∃ old, c.inFlight = old ++ s.inFlight.map S.place ∧ ∀ b ∈ old, S.Before b
  ownInFlight : ∀ b ∈ s.inFlight, S.Own b
  timer : c.timer = s.timer.map (· + S.serials)
  timers : c.timers.map (·.handle) = s.timers.map (·.handle + S.serials)
  listeners : c.listeners.map (·.fault) = s.listeners.map (·.fault)
  numbered : Numbered c.listeners c.fresh
  ownNumbered : Numbered s.listeners s.fresh
  cache : S.SameCache c.cache s.cache

/-! ## Two runs of an operation -/

variable {α β γ δ : Type}

/-- Both succeed with related values, or both fail for the same reason. -/
inductive Alike (R : α → β → Prop) : Except Fault α → Except Fault β → Prop where
  | ok {a : α} {b : β} (h : R a b) : Alike R (.ok a) (.ok b)
  | error (f : Fault) : Alike R (.error f) (.error f)

theorem alike_refl (r : Except Fault α) : Alike Eq r r := by
  cases r with
  | error f => exact .error f
  | ok a => exact .ok rfl

/-- In a coordinator that hosts the session an operation has the same result as in the first session,
and the session stays hosted. -/
def Sim (R : α → β → Prop) (x : Action α) (y : Action β) : Prop :=
  ∀ c s, S.Hosts c s → Alike R (x.run c).1 (y.run s).1 ∧ S.Hosts (x.run c).2 (y.run s).2

variable {S}

theorem sim_pure {R : α → β → Prop} {a : α} {b : β} (h : R a b) : S.Sim R (pure a) (pure b) :=
  fun _ _ hc => ⟨.ok h, hc⟩

theorem sim_throw {R : α → β → Prop} (f : Fault) : S.Sim R (throw f) (throw f) := fun _ _ hc => ⟨.error f, hc⟩

theorem sim_mk {R : α → β → Prop} {r : Except Fault α} {q : Except Fault β} (h : Alike R r q) :
    S.Sim R (ExceptT.mk (pure r)) (ExceptT.mk (pure q)) := fun _ _ hc => ⟨h, hc⟩

theorem sim_get : S.Sim S.Hosts get get := fun _ _ hc => ⟨.ok hc, hc⟩

theorem sim_set {c s : Coordinator} (h : S.Hosts c s) : S.Sim Eq (set c) (set s) := fun _ _ _ => ⟨.ok rfl, h⟩

theorem sim_modify {f g : Coordinator → Coordinator} (h : ∀ c s, S.Hosts c s → S.Hosts (f c) (g s)) :
    S.Sim Eq (modify f) (modify g) := fun c s hc => ⟨.ok rfl, h c s hc⟩

theorem sim_bind {R : α → β → Prop} {Q : γ → δ → Prop} {x : Action α} {y : Action β}
    {f : α → Action γ} {g : β → Action δ} (h : S.Sim R x y) (k : ∀ a b, R a b → S.Sim Q (f a) (g b)) :
    S.Sim Q (x >>= f) (y >>= g) := by
  intro c s hc
  rw [Coordinator.run_bind, Coordinator.run_bind]
  obtain ⟨hr, hc⟩ := h c s hc
  revert hr hc
  generalize x.run c = rx
  generalize y.run s = ry
  obtain ⟨_, c⟩ := rx
  obtain ⟨_, s⟩ := ry
  rintro (⟨hab⟩ | ⟨f⟩) hc
  · exact k _ _ hab c s hc
  · exact ⟨.error f, hc⟩

/-- A step that gives the same value in both. -/
theorem sim_step {Q : γ → δ → Prop} {x y : Action α} {f : α → Action γ} {g : α → Action δ}
    (h : S.Sim Eq x y) (k : ∀ a, S.Sim Q (f a) (g a)) : S.Sim Q (x >>= f) (y >>= g) :=
  sim_bind h fun a _ hab => hab ▸ k a

theorem sim_tryCatch {R : α → β → Prop} {x : Action α} {y : Action β} {f : Fault → Action α}
    {g : Fault → Action β} (h : S.Sim R x y) (k : ∀ e, S.Sim R (f e) (g e)) :
    S.Sim R (tryCatch x f) (tryCatch y g) := by
  intro c s hc
  rw [Coordinator.run_tryCatch, Coordinator.run_tryCatch]
  obtain ⟨hr, hc⟩ := h c s hc
  revert hr hc
  generalize x.run c = rx
  generalize y.run s = ry
  obtain ⟨_, c⟩ := rx
  obtain ⟨_, s⟩ := ry
  rintro (⟨hab⟩ | ⟨f⟩) hc
  · exact ⟨.ok hab, hc⟩
  · exact k f c s hc

/-- What is logged does not matter. -/
theorem sim_note (line other : String) : S.Sim Eq (Coordinator.note line) (Coordinator.note other) :=
  sim_modify fun _ _ h => { h with }

theorem sim_settle : S.Sim Eq Coordinator.settle Coordinator.settle := sim_modify fun _ _ h => { h with }

/-! ## The cache -/

theorem sim_saveCache : S.Sim Eq Coordinator.saveCache Coordinator.saveCache := by
  unfold Coordinator.saveCache
  refine sim_bind sim_get fun c s h => ?_
  have hc := h.cache
  rw [h.owner, h.isOwner, h.plan]
  revert hc
  cases c.cache <;> cases s.cache <;> intro hc
  · exact sim_pure rfl
  · exact hc.elim
  · exact hc.elim
  · next a b =>
    obtain ⟨ha, hb, file⟩ := hc
    refine sim_step (sim_mk (alike_refl _)) fun semesters => ?_
    obtain ⟨same, freeA, freeB, fileAfter⟩ := Cache.save_congr ha hb file semesters
    refine sim_step (sim_set { h with
        isOwner := rfl, owner := rfl, plan := rfl, cache := ⟨freeA, freeB, fileAfter⟩ }) fun _ => ?_
    rw [same]
    cases (b.save S.user semesters).result with
    | ok u => exact sim_pure rfl
    | error f =>
      dsimp only
      split
      · exact sim_note _ _
      · exact sim_throw f

/-! ## Changing the plan -/

theorem timers_without {l m : List Timer} (k : Nat) (h : l.map (·.handle) = m.map (·.handle + S.serials)) :
    (l.filter (·.handle != k + S.serials)).map (·.handle) =
    (m.filter (·.handle != k)).map (·.handle + S.serials) := by
  have hl := List.filter_map (f := Timer.handle) (p := (· != k + S.serials)) (l := l)
  have hm := List.filter_map (f := fun t : Timer => t.handle + S.serials) (p := (· != k + S.serials)) (l := m)
  rw [h] at hl
  refine hl.symm.trans (hm.trans (congrArg _ (List.filter_congr fun t _ => ?_)))
  simp [bne, Nat.add_right_cancel_iff]

theorem hosts_stopTimer {c s : Coordinator} (h : S.Hosts c s) : S.Hosts c.stopTimer s.stopTimer := by
  have ht := h.timer
  unfold Coordinator.stopTimer
  cases hs : s.timer with
  | none => rw [hs] at ht; rw [ht]; exact h
  | some k =>
    rw [hs] at ht
    rw [ht]
    exact { h with timer := rfl, timers := timers_without k h.timers }

theorem hosts_restartTimer {c s : Coordinator} (h : S.Hosts c s) : S.Hosts c.restartTimer s.restartTimer := by
  have h := hosts_stopTimer h
  unfold Coordinator.restartTimer
  revert h
  generalize c.stopTimer = c
  generalize s.stopTimer = s
  intro h
  exact { h with
    fresh := by dsimp only; rw [h.fresh]; omega
    base := Nat.le_succ_of_le h.base
    timer := by dsimp only; rw [h.fresh]; rfl
    timers := by simp [h.timers, h.fresh]
    numbered := ⟨h.numbered.distinct, fun l hl => Nat.lt_succ_of_lt (h.numbered.given l hl)⟩
    ownNumbered := ⟨h.ownNumbered.distinct, fun l hl => Nat.lt_succ_of_lt (h.ownNumbered.given l hl)⟩ }

theorem hosts_enqueue {c s : Coordinator} (h : S.Hosts c s) (snapshot : Snapshot) (m : Mutation) (e : Effect) :
    S.Hosts (c.enqueue snapshot m e) (s.enqueue snapshot m e) := by
  have hq := h.queued
  unfold Coordinator.enqueue
  cases hs : s.queued with
  | some b =>
    rw [hs] at hq
    rw [hq]
    exact { h with queued := rfl, ownQueued := by simpa [Batch.push, Own] using h.ownQueued b hs }
  | none =>
    rw [hs, Option.map_none] at hq
    rw [hq]
    exact { h with
      fresh := by dsimp only; rw [h.fresh]; omega
      base := Nat.le_succ_of_le h.base
      queued := by simp [place, Batch.shift, Batch.push, h.fresh, h.epoch]
      ownQueued := by simp [Batch.push, Own, h.first, h.base]
      numbered := ⟨h.numbered.distinct, fun l hl => Nat.lt_succ_of_lt (h.numbered.given l hl)⟩
      ownNumbered := ⟨h.ownNumbered.distinct, fun l hl => Nat.lt_succ_of_lt (h.ownNumbered.given l hl)⟩ }

theorem sim_apply (m : Mutation) : S.Sim Eq (Coordinator.apply m) (Coordinator.apply m) := by
  unfold Coordinator.apply
  refine sim_bind sim_get fun c s h => ?_
  rw [h.owner, h.isOwner, h.plan]
  simp only [Option.isNone_some, Bool.false_eq_true, ↓reduceIte]
  refine sim_step (sim_set { h with isOwner := rfl, owner := rfl, plan := rfl }) fun _ =>
    sim_step (sim_mk (alike_refl _)) fun snapshot => ?_
  cases m.apply s.plan with
  | error f =>
    dsimp only
    split
    · exact sim_step sim_settle fun _ => sim_throw f
    · exact sim_throw f
  | ok r =>
    obtain ⟨effect, plan⟩ := r
    refine sim_step (sim_modify fun c s h => { h with plan := rfl }) fun _ => ?_
    split
    · refine sim_step (sim_modify fun c s h => hosts_restartTimer (hosts_enqueue h snapshot m effect)) fun _ => ?_
      exact sim_step sim_saveCache fun _ => sim_settle
    · exact sim_settle

theorem sim_applyAll (ms : List Mutation) : S.Sim Eq (Coordinator.applyAll ms) (Coordinator.applyAll ms) := by
  induction ms with
  | nil => exact sim_pure rfl
  | cons m ms ih =>
    unfold Coordinator.applyAll
    refine sim_step (sim_tryCatch (sim_step (sim_apply m) fun _ => sim_pure rfl) fun f => ?_) fun refused => ?_
    · split
      · exact sim_pure rfl
      · exact sim_throw f
    · exact sim_step ih fun _ => sim_pure rfl

theorem sim_retry (failure : SyncFailure) : S.Sim Eq (Coordinator.retry failure) (Coordinator.retry failure) := by
  unfold Coordinator.retry
  refine sim_bind sim_get fun c s h => ?_
  rw [h.owner]
  split
  · exact sim_step (sim_throw _) fun _ => sim_applyAll _
  · exact sim_applyAll _

/-! ## Writing -/

/-- A batch of the session and its place after a past. -/
def Placed (b b' : Batch) : Prop := b = S.place b' ∧ S.Own b'

theorem sim_beginFlush : S.Sim (fun r r' => Option.Rel (fun x y => S.Placed x.1 y.1 ∧ x.2 = y.2) r r')
    Coordinator.beginFlush Coordinator.beginFlush := by
  unfold Coordinator.beginFlush
  refine sim_step (sim_modify fun _ _ => hosts_stopTimer) fun _ => sim_bind sim_get fun c s h => ?_
  have hq := h.queued
  cases hs : s.queued with
  | none =>
    rw [hs, Option.map_none] at hq
    rw [hq]
    exact sim_pure .none
  | some b =>
    rw [hs, Option.map_some] at hq
    rw [hq, h.plan]
    refine sim_step (sim_set { h with plan := rfl, queued := rfl, ownQueued := nofun }) fun _ => ?_
    refine sim_step (sim_mk (alike_refl _)) fun payloads => sim_step (sim_mk (alike_refl _)) fun deleted => ?_
    have hb := h.ownQueued b hs
    refine sim_step (sim_modify fun c s h => ?_) fun _ => sim_pure (.some ⟨⟨rfl, hb⟩, ?_⟩)
    · obtain ⟨old, ho, hn⟩ := h.inFlight
      exact { h with
        inFlight := ⟨old, by simp [ho, place, Batch.shift], hn⟩
        ownInFlight := fun x hx => (List.mem_append.1 hx).elim (h.ownInFlight x)
          fun hx => by rw [List.mem_singleton.1 hx]; exact hb }
    · rw [h.backend]

theorem beq_add (a b k : Nat) : (a + k == b + k) = (a == b) := by
  rw [Bool.eq_iff_iff]; simp

/-- A batch of the session is not taken for one of an earlier session. -/
theorem dropBatch?_placed {b b' : Batch} (hb : S.Placed b b') {old own : List Batch}
    (ho : ∀ x ∈ old, S.Before x) :
    Coordinator.dropBatch? b (old ++ own.map S.place) =
      (Coordinator.dropBatch? b' own).map fun rest => old ++ rest.map S.place := by
  obtain ⟨rfl, hb, hs⟩ := hb
  have skip : ∀ x ∈ old, (x.serial == (S.place b').serial || x.same (S.place b')) = false := by
    intro x hx
    obtain ⟨hn, he⟩ := ho x hx
    have h1 : (x.serial == (S.place b').serial) = false := by simp [place, Batch.shift]; omega
    have h2 : (x.epoch == (S.place b').epoch) = false := by simp [place, Batch.shift]; omega
    simp [h1, Batch.same, h2]
  have own_eq : Coordinator.dropBatch? (S.place b') (own.map S.place) =
      (Coordinator.dropBatch? b' own).map (List.map S.place) := by
    induction own with
    | nil => rfl
    | cons x own ih =>
      have hx : ((S.place x).serial == (S.place b').serial || (S.place x).same (S.place b')) =
          (x.serial == b'.serial || x.same b') := by
        simp only [place, Batch.shift, Batch.same, beq_add]
      simp only [List.map_cons, Coordinator.dropBatch?, hx, ih]
      split <;> simp [Function.comp_def]
  induction old with
  | nil => simpa using own_eq
  | cons x old ih =>
    obtain ⟨hx, ho'⟩ := List.forall_mem_cons.1 skip
    simp only [List.cons_append, Coordinator.dropBatch?, hx, Bool.false_eq_true, ↓reduceIte,
      ih (fun y hy => ho y (List.mem_cons_of_mem x hy)) ho']
    simp [Function.comp_def]

theorem hosts_mark {c s : Coordinator} (h : S.Hosts c s) {serial : Nat} (hs : S.base ≤ serial) (state : SyncState) :
    S.Hosts (c.mark (serial + S.serials) state) (s.mark serial state) := by
  obtain ⟨old, ho, hn⟩ := h.inFlight
  have keep : old.map (fun b => if b.serial == serial + S.serials then { b with state } else b) = old := by
    refine (List.map_congr_left fun b hb => ?_).trans (List.map_id old)
    have : (b.serial == serial + S.serials) = false := by simpa using by have := (hn b hb).1; omega
    simp [this]
  exact { h with
    inFlight := ⟨old, by
      simp only [Coordinator.mark, ho, List.map_append, keep, List.map_map]
      refine congrArg _ (List.map_congr_left fun b _ => ?_)
      simp only [Function.comp_apply, place, Batch.shift]
      by_cases hb : b.serial = serial <;> simp [hb], hn⟩
    ownInFlight := fun x hx => by
      obtain ⟨b, hb, rfl⟩ := List.mem_map.1 hx
      have := h.ownInFlight b hb
      split <;> exact this }

theorem hosts_requeue {c s : Coordinator} (h : S.Hosts c s) {b b' : Batch} (hb : S.Placed b b') :
    S.Hosts (c.requeue b) (s.requeue b') := by
  obtain ⟨rfl, -⟩ := hb
  have hq := h.queued
  unfold Coordinator.requeue
  refine hosts_restartTimer ?_
  cases hs : s.queued with
  | some w =>
    rw [hs, Option.map_some] at hq
    rw [hq]
    exact { h with queued := rfl, ownQueued := by simpa [Batch.prepend, Own] using h.ownQueued w hs }
  | none =>
    rw [hs, Option.map_none] at hq
    rw [hq]
    exact { h with
      fresh := by dsimp only; rw [h.fresh]; omega
      base := Nat.le_succ_of_le h.base
      queued := by simp [place, Batch.shift, Batch.prepend, h.fresh, h.epoch]
      ownQueued := by simp [Batch.prepend, Own, h.first, h.base]
      numbered := ⟨h.numbered.distinct, fun l hl => Nat.lt_succ_of_lt (h.numbered.given l hl)⟩
      ownNumbered := ⟨h.ownNumbered.distinct, fun l hl => Nat.lt_succ_of_lt (h.ownNumbered.given l hl)⟩ }

theorem sim_rollBack {b b' : Batch} (hb : S.Placed b b') (cause : String) :
    S.Sim Eq (Coordinator.rollBack b cause) (Coordinator.rollBack b' cause) := by
  obtain ⟨rfl, hb⟩ := hb
  unfold Coordinator.rollBack
  refine sim_bind sim_get fun c s h => ?_
  rw [h.owner, h.plan]
  refine sim_step (sim_mk (alike_refl _)) fun plan => ?_
  refine sim_step (sim_set { h with owner := rfl, plan := rfl }) fun _ => sim_step sim_saveCache fun _ => ?_
  refine sim_step (sim_modify fun c s h => hosts_mark h hb.2 .rolledBack) fun _ => ?_
  refine sim_step (sim_mk (alike_refl _)) fun semesters => ?_
  refine sim_step (sim_modify fun c s h => { h with lastFailure := rfl }) fun _ => ?_
  exact sim_step (sim_note _ _) fun _ => sim_pure rfl

theorem sim_notify {ls ms : List Listener} (h : ls.map (·.fault) = ms.map (·.fault)) :
    S.Sim Eq (Coordinator.notify ls) (Coordinator.notify ms) := by
  unfold Coordinator.notify
  induction ls generalizing ms with
  | nil =>
    cases ms with
    | nil => exact sim_pure rfl
    | cons => cases h
  | cons l ls ih =>
    cases ms with
    | nil => cases h
    | cons m ms =>
      obtain ⟨hl, ht⟩ := List.cons_eq_cons.1 h
      simp only [List.forM_eq_forM, List.forM_cons] at ih ⊢
      refine sim_step ?_ fun _ => ih ht
      dsimp only at hl
      rw [hl]
      split
      · exact sim_note _ _
      · exact sim_pure rfl

/-- What a flush gives at its end, but for the handles of the listeners. -/
def SameEnd (r q : Coordinator.Flushed) : Prop := r.state = q.state ∧ r.told = q.told

theorem sim_finishFlush {b b' : Batch} (hb : S.Placed b b') (outcome : Option String) :
    S.Sim SameEnd (Coordinator.finishFlush b outcome) (Coordinator.finishFlush b' outcome) := by
  unfold Coordinator.finishFlush
  refine sim_bind sim_get fun c s h => ?_
  obtain ⟨old, ho, hn⟩ := h.inFlight
  rw [ho, dropBatch?_placed hb hn]
  cases hd : Coordinator.dropBatch? b' s.inFlight with
  | none => exact sim_throw _
  | some rest =>
    have hep : (b.epoch != c.epoch) = (b'.epoch != s.epoch) := by
      rw [hb.1, h.epoch]
      simp only [place, Batch.shift, bne, beq_add]
    have hclosed : b.closedAt = b'.closedAt := by rw [hb.1]; rfl
    have hserial : b.serial = b'.serial + S.serials := by rw [hb.1]; rfl
    simp only [Option.map_some]
    refine sim_step (sim_set { h with
      inFlight := ⟨old, rfl, hn⟩
      ownInFlight := fun x hx => h.ownInFlight x ((Coordinator.dropBatch?_sublist hd).subset hx) }) fun _ => ?_
    rw [hep]
    split
    · exact sim_step (sim_note _ _) fun _ => sim_step sim_settle fun _ => sim_pure ⟨by rw [hb.1]; rfl, rfl⟩
    cases outcome with
    | none =>
      refine sim_step (sim_modify fun c s h => ?_) fun _ => sim_step sim_settle fun _ => sim_pure ⟨rfl, rfl⟩
      rw [hserial]
      exact { hosts_mark h hb.2.2 .committed with }
    | some cause =>
      rw [hclosed, h.plan, hserial]
      dsimp only
      split
      · have hsem : b.sortedSemesters = b'.sortedSemesters := by rw [hb.1]; rfl
        rw [hsem]
        refine sim_step (sim_mk (alike_refl _)) fun _ => sim_step (sim_note _ _) fun _ => ?_
        refine sim_step (sim_modify fun c s h => ?_) fun _ => sim_pure ⟨rfl, rfl⟩
        exact { hosts_requeue (hosts_mark h hb.2.2 .pending) hb with }
      · refine sim_step (sim_rollBack hb cause) fun failure =>
          sim_step (sim_modify fun c s h => { h with }) fun _ => ?_
        refine sim_step sim_settle fun _ => sim_step (sim_notify h.listeners) fun _ => sim_pure ⟨rfl, ?_⟩
        simp only [Coordinator.Flushed.told, Option.map_some, h.listeners]

/-! ## Late writes -/

theorem dropBatch?_before {b : Batch} (hb : S.Before b) {old own : List Batch} (ho : ∀ x ∈ own, S.Own x) :
    Coordinator.dropBatch? b (old ++ own.map S.place) =
      (Coordinator.dropBatch? b old).map (· ++ own.map S.place) := by
  obtain ⟨hn, he⟩ := hb
  have skip : Coordinator.dropBatch? b (own.map S.place) = none := by
    induction own with
    | nil => rfl
    | cons x own ih =>
      obtain ⟨⟨hx, hs⟩, ho'⟩ := List.forall_mem_cons.1 ho
      have h1 : ((S.place x).serial == b.serial) = false := by simp [place, Batch.shift]; omega
      have h2 : ((S.place x).epoch == b.epoch) = false := by simp [place, Batch.shift]; omega
      simp [Coordinator.dropBatch?, h1, Batch.same, h2, ih ho']
  induction old with
  | nil => exact skip
  | cons x old ih =>
    simp only [List.cons_append, Coordinator.dropBatch?, ih]
    split <;> simp [Function.comp_def]

/-- The end of a write of an earlier session changes nothing for the session, and no one is told. -/
theorem hosts_late {c s : Coordinator} (h : S.Hosts c s) {b : Batch} (hb : S.Before b) (outcome : Option String) :
    S.Hosts ((Coordinator.finishFlush b outcome).run c).2 s ∧
      (Report.ofFlushed ((Coordinator.finishFlush b outcome).run c).1).told = none := by
  obtain ⟨old, ho, hn⟩ := h.inFlight
  have hep : (b.epoch != c.epoch) = true := by
    have := hb.2
    have := h.epoch
    have := h.first
    simp only [bne_iff_ne, ne_eq]
    omega
  simp only [Coordinator.finishFlush, Coordinator.run_bind, Coordinator.run_get, ho, dropBatch?_before hb h.ownInFlight]
  cases hd : Coordinator.dropBatch? b old with
  | none => exact ⟨h, rfl⟩
  | some rest =>
    simp only [Option.map_some, Coordinator.run_bind, Coordinator.run_set, hep, ↓reduceIte]
    refine ⟨{ h with
        inFlight := ⟨rest, rfl, fun x hx => hn x ((Coordinator.dropBatch?_sublist hd).subset hx)⟩ }, rfl⟩

/-! ## The beginning of a session -/

theorem sim_loadRemote (remote : Remote) :
    S.Sim Eq (Coordinator.loadRemote remote) (Coordinator.loadRemote remote) := by
  unfold Coordinator.loadRemote
  split
  · exact sim_pure rfl
  · exact sim_pure rfl
  · exact sim_step (sim_note _ _) fun _ => sim_pure rfl

theorem sim_loadCached : S.Sim Eq (Coordinator.loadCached S.user) (Coordinator.loadCached S.user) := by
  unfold Coordinator.loadCached
  refine sim_bind sim_get fun c s h => ?_
  have hc := h.cache
  revert hc
  cases c.cache <;> cases s.cache <;> intro hc
  · exact sim_pure rfl
  · exact hc.elim
  · exact hc.elim
  · obtain ⟨ha, hb, hab⟩ := hc
    obtain ⟨hr, hfa, hfb, hf⟩ := Cache.load_congr ha hb hab
    dsimp only
    rw [hr]
    refine sim_step (sim_modify fun c s h => { h with cache := ⟨hfa, hfb, hf⟩ }) fun _ => ?_
    exact sim_step (sim_mk (alike_refl _)) fun _ => sim_pure rfl

theorem sim_loadPlan (data : Json) :
    S.Sim Eq (Coordinator.loadPlan S.user data) (Coordinator.loadPlan S.user data) := by
  unfold Coordinator.loadPlan
  split
  · exact sim_pure rfl
  · refine sim_bind sim_get fun c s h => ?_
    rw [h.plan]
    split
    · exact sim_modify fun c s h => { h with plan := rfl }
    · next f _ =>
      split
      · exact sim_step (sim_note _ _) fun _ => sim_modify fun c s h => { h with plan := rfl }
      · exact sim_throw f

theorem sim_loadSession (remote : Remote) :
    S.Sim Eq (Coordinator.loadSession S.user remote) (Coordinator.loadSession S.user remote) := by
  unfold Coordinator.loadSession
  refine sim_step (sim_loadRemote remote) fun data => ?_
  unfold Coordinator.loadChosen
  split
  · refine sim_step sim_loadCached fun cached => sim_step (sim_pure rfl) fun data => ?_
    exact sim_step (sim_loadPlan data) fun _ => sim_saveCache
  · exact sim_step (sim_pure rfl) fun data => sim_step (sim_loadPlan data) fun _ => sim_saveCache

end Session
end DegreePlan.Sync
