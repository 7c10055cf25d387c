import Mathlib.Data.List.Nodup
import DegreePlan.Proofs.Sync.Session
import DegreePlan.Proofs.Sync.World

/-!
# Numbers in reachable worlds

Batches, timers and listeners get numbers that were never given before, and every batch carries the
epoch in which it began. No timer outlives the batch it was started for.
-/

namespace DegreePlan.Sync

/-- Every listener has a handle of its own, and all handles were given before. -/
structure Numbered (listeners : List Listener) (fresh : Nat) : Prop where
  distinct : (listeners.map (·.handle)).Nodup
  given : ∀ l ∈ listeners, l.handle < fresh

namespace Coordinator

/-- The number and the epoch of a batch were given before. -/
def Given (c : Coordinator) (b : Batch) : Prop := b.serial < c.fresh ∧ b.epoch ≤ c.epoch

/-- What holds of the numbers of a coordinator. -/
structure Counted (c : Coordinator) : Prop where
  timers : ∀ t ∈ c.timers, c.timer = some t.handle
  listeners : Numbered c.listeners c.fresh
  queued : ∀ b ∈ c.queued, c.Given b
  inFlight : ∀ b ∈ c.inFlight, c.Given b

/-- Numbers grow. -/
def Later (c d : Coordinator) : Prop := c.fresh ≤ d.fresh ∧ c.epoch ≤ d.epoch

variable {c d : Coordinator}

theorem Later.refl (c : Coordinator) : Later c c := ⟨Nat.le_refl _, Nat.le_refl _⟩

theorem Later.trans {e : Coordinator} (h : Later c d) (k : Later d e) : Later c e :=
  ⟨Nat.le_trans h.1 k.1, Nat.le_trans h.2 k.2⟩

theorem Given.later {b : Batch} (h : c.Given b) (k : Later c d) : d.Given b :=
  ⟨Nat.lt_of_lt_of_le h.1 k.1, Nat.le_trans h.2 k.2⟩

/-- What an operation keeps: the numbers are in order, and none is given twice. -/
def Grows (c d : Coordinator) : Prop := c.Counted → d.Counted ∧ Later c d

theorem Grows.refl (c : Coordinator) : Grows c c := fun h => ⟨h, .refl c⟩

theorem Grows.trans {e : Coordinator} (h : Grows c d) (k : Grows d e) : Grows c e := fun hc =>
  have hd := h hc
  have he := k hd.1
  ⟨he.1, hd.2.trans he.2⟩

/-- Nothing that was numbered changed. -/
theorem grows_of_eq (ht : d.timers = c.timers) (hr : d.timer = c.timer) (hl : d.listeners = c.listeners)
    (hf : d.fresh = c.fresh) (he : d.epoch = c.epoch) (hq : d.queued = c.queued) (hi : d.inFlight = c.inFlight) :
    Grows c d := by
  intro h
  refine ⟨⟨?_, ?_, ?_, ?_⟩, hf ▸ Nat.le_refl _, he ▸ Nat.le_refl _⟩
  · rw [ht, hr]; exact h.timers
  · rw [hl, hf]; exact h.listeners
  · intro b hb; rw [hq] at hb; exact ⟨hf ▸ (h.queued b hb).1, he ▸ (h.queued b hb).2⟩
  · intro b hb; rw [hi] at hb; exact ⟨hf ▸ (h.inFlight b hb).1, he ▸ (h.inFlight b hb).2⟩

theorem numbered_later {ls : List Listener} {m n : Nat} (h : Numbered ls m) (k : m ≤ n) : Numbered ls n :=
  ⟨h.distinct, fun l hl => Nat.lt_of_lt_of_le (h.given l hl) k⟩

theorem stopTimer_eq (h : c.Counted) : c.stopTimer = { c with timer := none, timers := [] } := by
  unfold stopTimer
  split
  · next ht =>
    have none : c.timers = [] := List.eq_nil_iff_forall_not_mem.2 fun t hm => by simpa [ht] using h.timers t hm
    rw [← ht, ← none]
  · next k ht =>
    have none : c.timers.filter (·.handle != k) = [] := List.filter_eq_nil_iff.2 fun t hm => by
      have := h.timers t hm
      rw [ht] at this
      simp [Option.some.inj this]
    rw [none]

theorem timers_stopped (h : c.Counted) : c.stopTimer.timers = [] ∧ c.stopTimer.timer = none := by
  rw [stopTimer_eq h]
  exact ⟨rfl, rfl⟩

theorem grows_stopTimer (c : Coordinator) : Grows c c.stopTimer := by
  intro h
  obtain ⟨hs, -⟩ := timers_stopped h
  have later : Later c c.stopTimer := ⟨by simp, by simp⟩
  refine ⟨⟨by rw [hs]; nofun, by simpa using h.listeners, fun b hb => ?_, fun b hb => ?_⟩, later⟩
  · rw [stopTimer_queued] at hb; exact (h.queued b hb).later later
  · rw [stopTimer_inFlight] at hb; exact (h.inFlight b hb).later later

/-- One more number is given. -/
theorem grows_fresh (h : c.Counted) : ({ c with fresh := c.fresh + 1 } : Coordinator).Counted ∧
    Later c { c with fresh := c.fresh + 1 } := by
  have later : Later c { c with fresh := c.fresh + 1 } := ⟨Nat.le_succ _, Nat.le_refl _⟩
  exact ⟨⟨h.timers, numbered_later h.listeners (Nat.le_succ _), fun b hb => (h.queued b hb).later later,
    fun b hb => (h.inFlight b hb).later later⟩, later⟩

theorem grows_restartTimer (c : Coordinator) : Grows c c.restartTimer := by
  intro h
  obtain ⟨hs, hl⟩ := grows_stopTimer c h
  have ht := (timers_stopped h).1
  unfold restartTimer
  generalize c.stopTimer = d at *
  obtain ⟨hf, hlf⟩ := grows_fresh hs
  exact ⟨{ hf with timers := by simp [ht] }, hl.trans hlf⟩

theorem grows_enqueue (c : Coordinator) (snapshot : Snapshot) (m : Mutation) (e : Effect) :
    Grows c (c.enqueue snapshot m e) := by
  intro h
  unfold enqueue
  split
  · next b hb => exact ⟨{ h with queued := by simpa [Given, Batch.push] using h.queued b hb }, .refl c⟩
  · obtain ⟨hf, hl⟩ := grows_fresh h
    exact ⟨{ hf with queued := by simp [Given, Batch.push] }, hl⟩

theorem grows_mark (c : Coordinator) (serial : Nat) (state : SyncState) : Grows c (c.mark serial state) := by
  intro h
  refine ⟨{ h with inFlight := fun b hb => ?_ }, .refl c⟩
  obtain ⟨a, ha, rfl⟩ := List.mem_map.1 hb
  have := h.inFlight a ha
  split <;> exact this

theorem grows_joined (c : Coordinator) (b : Batch) : Grows c (c.joined b) := by
  intro h
  unfold joined
  split
  · next w hw => exact ⟨{ h with queued := by simpa [Given, Batch.prepend] using h.queued w hw }, .refl c⟩
  · obtain ⟨hf, hl⟩ := grows_fresh h
    exact ⟨{ hf with queued := by simp [Given, Batch.prepend] }, hl⟩

theorem grows_requeue (c : Coordinator) (b : Batch) : Grows c (c.requeue b) := by
  rw [requeue_eq]
  exact (grows_joined c b).trans (grows_restartTimer _)

/-- Timers leave the list of those that wait. -/
theorem Counted.fewer (h : c.Counted) {timers : List Timer} (fewer : timers.Sublist c.timers) :
    ({ c with timers } : Coordinator).Counted :=
  { h with timers := fun t ht => h.timers t (fewer.subset ht) }

/-- A batch leaves the list of those that are written. -/
theorem grows_drop {rest : List Batch} (h : rest.Sublist c.inFlight) : Grows c { c with inFlight := rest } :=
  fun hc => ⟨{ hc with inFlight := fun b hb => hc.inFlight b (h.subset hb) }, .refl c⟩

theorem grows_ended (c : Coordinator) : Grows c c.ended := by
  intro h
  obtain ⟨hs, hl⟩ := grows_stopTimer c h
  unfold ended
  rw [← stopTimer_epoch c]
  generalize c.stopTimer = d at *
  exact ⟨{ hs with
      queued := nofun, inFlight := fun b hb => ⟨(hs.inFlight b hb).1, Nat.le_succ_of_le (hs.inFlight b hb).2⟩ },
    hl.trans ⟨Nat.le_refl _, Nat.le_succ _⟩⟩

/-! ## Operations -/

theorem numbered_listen {ls : List Listener} {n : Nat} (h : Numbered ls n) (fault : Option String) :
    Numbered (ls ++ [{ handle := n, fault }]) (n + 1) := by
  refine ⟨?_, fun l hm => ?_⟩
  · rw [List.map_append, List.map_singleton, List.nodup_append_comm, List.singleton_append, List.nodup_cons]
    refine ⟨fun hm => ?_, h.distinct⟩
    obtain ⟨l, hl, he⟩ := List.mem_map.1 hm
    exact absurd (h.given l hl) (by simp [he])
  · rcases List.mem_append.1 hm with hm | hm
    · exact Nat.lt_succ_of_lt (h.given l hm)
    · rw [List.mem_singleton.1 hm]; exact Nat.lt_succ_self _

theorem grows_listen (c : Coordinator) (fault : Option String) : Grows c (c.listen fault).2 := by
  intro h
  obtain ⟨hf, hl⟩ := grows_fresh h
  exact ⟨{ hf with listeners := numbered_listen h.listeners fault }, hl⟩

theorem grows_unlisten (c : Coordinator) (handle : Nat) : Grows c (c.unlisten handle) := fun h =>
  ⟨{ h with listeners := ⟨(List.filter_sublist.map _).nodup h.listeners.distinct,
      fun l hl => h.listeners.given l (List.mem_of_mem_filter hl)⟩ }, .refl c⟩

theorem grows_apply (m : Mutation) (c : Coordinator) : Grows c ((apply m).run c).2 := by
  rcases c.apply_cases m with ⟨f, state, h⟩ | ⟨e, plan, state, -, -, h⟩ |
    ⟨snapshot, e, plan, -, -, -, -, r, cache, log, state, h, -⟩ <;> rw [h]
  · exact grows_of_eq rfl rfl rfl rfl rfl rfl rfl
  · exact grows_of_eq rfl rfl rfl rfl rfl rfl rfl
  · have start : Grows c { c with state := .applying, plan } := grows_of_eq rfl rfl rfl rfl rfl rfl rfl
    exact start.trans ((grows_enqueue _ snapshot m e).trans ((grows_restartTimer _).trans
      (grows_of_eq rfl rfl rfl rfl rfl rfl rfl)))

theorem grows_retry (failure : SyncFailure) (c : Coordinator) : Grows c ((retry failure).run c).2 :=
  retry_keeps (P := Grows c) (fun m _ d (h : Grows c d) => h.trans (grows_apply m d)) c (.refl c)

theorem grows_beginFlush (c : Coordinator) : Grows c (beginFlush.run c).2 := by
  rcases c.beginFlush_cases with ⟨-, h⟩ | ⟨b, hb, ⟨f, h, -⟩ | ⟨ps, gone, -, -, h⟩⟩ <;> rw [h]
  · exact grows_stopTimer c
  · exact (grows_stopTimer c).trans fun hc => ⟨{ hc with queued := nofun }, .refl _⟩
  · intro hc
    obtain ⟨hs, hl⟩ := grows_stopTimer c hc
    refine ⟨{ hs with queued := nofun, inFlight := fun x hx => ?_ }, hl⟩
    rcases List.mem_append.1 hx with hx | hx
    · exact (hc.inFlight x hx).later hl
    · rw [List.mem_singleton.1 hx]; exact (hc.queued b hb).later hl

theorem grows_finishFlush (b : Batch) (outcome : Option String) (c : Coordinator) :
    Grows c ((finishFlush b outcome).run c).2 := by
  rcases c.finishFlush_cases b outcome with ⟨-, f, h⟩ | ⟨rest, hd, hcases⟩
  · rw [h]; exact .refl c
  have drop := grows_drop (dropBatch?_sublist hd)
  have last : ∀ {d e : Coordinator}, Grows c d → e.timers = d.timers → e.timer = d.timer →
    e.listeners = d.listeners →
      e.fresh = d.fresh → e.epoch = d.epoch → e.queued = d.queued → e.inFlight = d.inFlight → Grows c e :=
    fun h h1 h2 h3 h4 h5 h6 h7 => h.trans (grows_of_eq h1 h2 h3 h4 h5 h6 h7)
  rcases hcases with ⟨-, log, state, h⟩ | ⟨-, -, state, h⟩ |
    ⟨-, -, cause, -, ⟨f, -, h⟩ | ⟨log, h⟩⟩ |
    ⟨-, -, cause, -, ⟨f, -, h⟩ |
      ⟨plan, -, r, cache, log, lastFailure, inFlight, lastOutcome, state, h, hi, -⟩⟩ <;> rw [h]
  · exact last drop rfl rfl rfl rfl rfl rfl rfl
  · exact last (drop.trans (grows_mark _ b.serial .committed)) rfl rfl rfl rfl rfl rfl rfl
  · exact drop
  · have noted : Grows c { c with inFlight := rest, log } := last drop rfl rfl rfl rfl rfl rfl rfl
    exact last (noted.trans ((grows_mark _ b.serial .pending).trans (grows_requeue _ b))) rfl rfl rfl rfl rfl rfl rfl
  · exact drop
  · rcases hi with rfl | rfl
    · exact last drop rfl rfl rfl rfl rfl rfl rfl
    · exact last (drop.trans (grows_mark _ b.serial .rolledBack)) rfl rfl rfl rfl rfl rfl rfl

theorem grows_handle (event : IdentityEvent) (remote : String → Remote) (c : Coordinator) :
    Grows c ((handle event remote).run c).2 := by
  rcases c.handle_cases event remote with ⟨r, h⟩ | ⟨r, cache, log, state, h⟩ |
    ⟨user, -, -, r, backend, plan, cache, log, state, h, -⟩ <;> rw [h]
  · exact .refl c
  · exact (grows_ended c).trans (grows_of_eq rfl rfl rfl rfl rfl rfl rfl)
  · exact (grows_ended c).trans (grows_of_eq rfl rfl rfl rfl rfl rfl rfl)

end Coordinator

/-! ## Worlds -/

namespace World

/-- The numbers of a coordinator and of all writes under way are in order. -/
structure Counted (w : World) : Prop where
  coordinator : w.coordinator.Counted
  flights : ∀ f ∈ w.flights, w.coordinator.Given f.batch
  late : ∀ f ∈ w.late, w.coordinator.Given f.batch

open Coordinator

variable {w : World}

/-- An operation of the coordinator that has the writes as they are. -/
theorem Counted.grow (h : w.Counted) {c : Coordinator} (hc : Grows w.coordinator c) :
    ({ w with coordinator := c } : World).Counted :=
  have ⟨hd, hl⟩ := hc h.coordinator
  ⟨hd, fun f hf => (h.flights f hf).later hl, fun f hf => (h.late f hf).later hl⟩

theorem Counted.launch (h : w.Counted) : w.launch.1.Counted := by
  have hg := grows_beginFlush w.coordinator
  unfold World.launch
  rcases w.coordinator.beginFlush_cases with ⟨-, hr⟩ |
    ⟨b, hb, ⟨f, hr, -⟩ | ⟨ps, gone, -, -, hr⟩⟩ <;> rw [hr] at hg ⊢
  · exact h.grow hg
  · exact h.grow hg
  · have hw := h.grow hg
    refine ⟨hw.coordinator, fun f hf => ?_, hw.late⟩
    rcases List.mem_append.1 hf with hf | hf
    · exact hw.flights f hf
    · rw [List.mem_singleton.1 hf, Flight.start_batch]
      exact hw.coordinator.inFlight _ (List.mem_append_right _ (List.mem_singleton_self _))

/-- Answers change neither the batch of a write nor its plan. -/
theorem mem_answered {fs : List Flight} {i : Nat} {r : Reply} {f : Flight} (h : f ∈ (answered fs i r).1) :
    ∃ g ∈ fs, f.batch = g.batch ∧ f.plan = g.plan ∧ f.backend = g.backend := by
  unfold answered at h
  split at h
  · exact ⟨f, h, rfl, rfl, rfl⟩
  · next g hg =>
    rcases List.mem_or_eq_of_mem_set h with h | rfl
    · exact ⟨f, h, rfl, rfl, rfl⟩
    · exact ⟨g, List.mem_of_getElem? hg, g.answer_batch r, g.answer_plan r, g.answer_backend r⟩

theorem ready?_mem {fs : List Flight} {i : Nat} {f : Flight} (h : ready? fs i = some f) : f ∈ fs ∧ f.left = [] := by
  obtain ⟨hf, hl⟩ := Option.filter_eq_some_iff.1 h
  exact ⟨List.mem_of_getElem? hf, List.isEmpty_iff.1 hl⟩

/-- A timer that runs out leaves the list of timers and begins a flush. Where no timer waits, nothing happens. -/
theorem expire_cases (w : World) :
    (∃ timers, timers.Sublist w.coordinator.timers ∧
      w.act .expire = World.launch { w with coordinator := { w.coordinator with timers } }) ∨
    w.act .expire = (w, {}) := by
  simp only [World.act, expire]
  cases w.coordinator.timers.getLast? with
  | none => exact .inr rfl
  | some t => exact .inl ⟨_, List.dropLast_sublist _, rfl⟩

theorem Counted.act (h : w.Counted) (a : Act) : (w.act a).1.Counted := by
  cases a with
  | mutate m => exact h.grow (grows_apply m _)
  | retry failure => exact h.grow (grows_retry failure _)
  | flush => exact h.launch
  | expire =>
    obtain ⟨timers, fewer, he⟩ | he := w.expire_cases <;> rw [he]
    · exact Counted.launch { h with coordinator := h.coordinator.fewer fewer }
    · exact h
  | reply i r =>
    refine ⟨h.coordinator, fun f hf => ?_, h.late⟩
    obtain ⟨g, hg, he, -⟩ := mem_answered hf
    rw [he]; exact h.flights g hg
  | finish i =>
    unfold World.act
    dsimp only
    split
    · exact h
    · next f hf =>
      have hw := h.grow (grows_finishFlush f.batch f.cause w.coordinator)
      exact ⟨hw.coordinator, fun g hg => hw.flights g (List.mem_of_mem_eraseIdx hg), hw.late⟩
  | close => exact h.grow (grows_stopTimer _)
  | listen fault => exact h.grow (grows_listen _ fault)
  | unlisten i =>
    unfold World.act
    dsimp only
    split
    · exact h
    · exact h.grow (grows_unlisten _ _)

theorem Counted.lateAct (h : w.Counted) (a : LateAct) : (w.lateAct a).1.Counted := by
  cases a with
  | reply i r =>
    refine ⟨h.coordinator, h.flights, fun f hf => ?_⟩
    obtain ⟨g, hg, he, -⟩ := mem_answered hf
    rw [he]; exact h.late g hg
  | finish i =>
    unfold World.lateAct
    dsimp only
    split
    · exact h
    · next f hf =>
      have hw := h.grow (grows_finishFlush f.batch f.cause w.coordinator)
      exact ⟨hw.coordinator, hw.flights, fun g hg => hw.late g (List.mem_of_mem_eraseIdx hg)⟩

theorem Counted.identify (h : w.Counted) (event : IdentityEvent) (remote : Remote) :
    (w.identify event remote).1.Counted := by
  have hw := h.grow (grows_handle event (fun _ => remote) w.coordinator)
  unfold World.identify
  dsimp only
  split
  · exact hw
  · exact ⟨hw.coordinator, nofun, fun f hf => (List.mem_append.1 hf).elim (hw.late f) (hw.flights f)⟩

theorem counted_new (quiet : Float) (cache : Option Cache) : World.Counted { coordinator := .new quiet cache } :=
  ⟨⟨nofun, ⟨List.nodup_nil, nofun⟩, nofun, nofun⟩, nofun, nofun⟩

theorem Counted.step (h : w.Counted) (e : Event) : (w.step e).1.Counted := by
  cases e with
  | act a => exact h.act a
  | late a => exact h.lateAct a
  | identity event remote => exact h.identify event remote

/-- In every reachable world the numbers are in order. -/
theorem Reachable.counted (h : Reachable w) : w.Counted := by
  induction h with
  | new quiet cache => exact counted_new quiet cache
  | step _ e ih => exact ih.step e

end World
end DegreePlan.Sync
