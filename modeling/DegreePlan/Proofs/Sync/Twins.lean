import DegreePlan.Proofs.Sync.Outstanding

/-!
# Writes of the same contents

Two batches that wait or are written at once have the same contents only if no version of the plan lies between their
snapshots. Every mutation that opens a batch raises the version, but for a move of a course to the semester that it is
in. Without such moves every write removes its own batch.
-/

namespace DegreePlan.Sync

open Plan

/-- When a batch began: the session, and the version of the plan. -/
def Batch.onset (b : Batch) : Nat × Nat := (b.epoch, b.snapshot.version)

theorem Batch.onset_eq {a b : Batch} (h : a.same b = true) : a.onset = b.onset := by
  simp only [Batch.same, Bool.and_eq_true, beq_iff_eq] at h
  simp [onset, h]

namespace Coordinator

variable {c d : Coordinator} {m : Mutation} {b : Batch}

/-- When the batch that waits and those that are written began. -/
def onsets (c : Coordinator) : List (Nat × Nat) := (c.queued.toList ++ c.inFlight).map Batch.onset

/-- All these batches began at different times, before the plan had its version. -/
structure Spread (c : Coordinator) : Prop where
  distinct : c.onsets.Nodup
  past : ∀ t ∈ c.onsets, t.1 ≤ c.epoch ∧ (t.1 = c.epoch → t.2 < c.plan.version)

namespace Spread

/-- Batches go, and the version goes on, or a new session begins. -/
theorem later (h : c.Spread) (fewer : d.onsets.Subperm c.onsets)
    (goes : c.epoch < d.epoch ∨ c.epoch = d.epoch ∧ c.plan.version ≤ d.plan.version) : d.Spread where
  distinct :=
    have ⟨_, perm, sublist⟩ := fewer
    perm.nodup_iff.1 (sublist.nodup h.distinct)
  past t ht := by
    obtain ⟨begun, older⟩ := h.past t (fewer.subset ht)
    omega

theorem still (h : c.Spread) (hq : d.queued = c.queued) (hi : d.inFlight = c.inFlight) (he : d.epoch = c.epoch)
    (hp : d.plan = c.plan) : d.Spread :=
  h.later (by rw [onsets, onsets, hq, hi]) (.inr ⟨he.symm, by rw [hp]⟩)

/-- A batch that is opened begins at the version of the plan, which the mutation raises. -/
theorem apply (h : c.Spread) (hm : ¬ m.Idle) : ((Coordinator.apply m).run c).2.Spread := by
  obtain ⟨stays, inFlight, ⟨plan, queued⟩ | ⟨snapshot, e, b, hs, made, does, queued, hb⟩⟩ := c.apply_made m
  · exact h.still queued inFlight stays.epoch plan
  · have raised : ((Coordinator.apply m).run c).2.plan.version = c.plan.version + 1 := by
      rcases (Mutation.done made).version_cases with ⟨-, empty | idle⟩ | ⟨raised, -⟩
      · rw [does] at empty; cases empty
      · exact absurd idle hm
      · exact raised
    rcases hb with waited | ⟨nothing, rfl⟩
    · -- the batch that waits keeps its snapshot
      refine h.later ?_ (.inr ⟨stays.epoch.symm, by omega⟩)
      rw [onsets, onsets, queued, inFlight, waited]
      exact List.Subperm.refl _
    · obtain ⟨xs, -, rfl⟩ := snapshot_eq_ok.1 hs
      have before : c.onsets = c.inFlight.map Batch.onset := by rw [onsets, nothing]; rfl
      have after : ((Coordinator.apply m).run c).2.onsets = (c.epoch, c.plan.version) :: c.onsets := by
        rw [before, onsets, queued, inFlight]; rfl
      constructor
      · rw [after, List.nodup_cons]
        exact ⟨fun mem => Nat.lt_irrefl _ ((h.past _ mem).2 rfl), h.distinct⟩
      · rw [after, stays.epoch, raised]
        refine List.forall_mem_cons.2 ⟨⟨Nat.le_refl _, fun _ => Nat.lt_succ_self _⟩, fun t ht => ?_⟩
        obtain ⟨begun, older⟩ := h.past t ht
        exact ⟨begun, fun he => Nat.lt_succ_of_lt (older he)⟩

/-- The batch goes to the end of the list. -/
theorem beginFlush (h : c.Spread) : (Coordinator.beginFlush.run c).2.Spread := by
  rcases c.beginFlush_cases with ⟨-, hr⟩ | ⟨b, hb, ⟨f, hr, -⟩ | ⟨ps, gone, -, -, hr⟩⟩ <;> rw [hr]
  · exact h.still (by simp) (by simp) (by simp) (by simp)
  · refine h.later ?_ (.inr (by simp))
    rw [onsets, onsets, hb, stopTimer_inFlight]
    exact (List.sublist_cons_self _ _).subperm
  · refine h.later ?_ (.inr (by simp))
    have before : c.onsets = b.onset :: c.inFlight.map Batch.onset := by rw [onsets, hb]; rfl
    have after : ∀ d : Coordinator, d.queued = none → d.inFlight = c.inFlight ++ [c.closed b] →
        d.onsets = c.inFlight.map Batch.onset ++ [b.onset] := fun d hq hi => by
      rw [onsets, hq, hi, Option.toList_none, List.nil_append, List.map_append]; rfl
    rw [before, after _ rfl rfl]
    exact (List.perm_append_singleton _ _).subperm

/-- A batch that is put off waits with its own snapshot. -/
theorem finishFlush (h : c.Spread) (epochs : ∀ b ∈ c.queued, b.epoch = c.epoch) {l m : List Batch}
    (listed : c.inFlight = l ++ b :: m) {outcome : Option String}
    (rest : ((Coordinator.finishFlush b outcome).run c).2.inFlight = l ++ m) :
    ((Coordinator.finishFlush b outcome).run c).2.Spread := by
  obtain ⟨epoch, version, joins⟩ := c.finishFlush_queued b outcome
  refine h.later ?_ (.inr ⟨epoch.symm, version⟩)
  have middle : (l ++ b :: m).Perm (b :: (l ++ m)) := List.perm_middle
  rw [onsets, onsets, rest, listed]
  rcases joins with queued | ⟨he, b₀, queued, hb₀⟩ <;> rw [queued]
  · exact ((((List.sublist_cons_self b m).append_left l).append_left _).map _).subperm
  · have own : (b₀.prepend b).onset = b.onset := by
      have : b₀.epoch = b.epoch := by
        rcases hb₀ with waited | ⟨-, -, new⟩
        · rw [epochs b₀ waited, he]
        · rw [new, he]
      simp [Batch.onset, Batch.prepend, this]
    have same : ((some (b₀.prepend b)).toList ++ (l ++ m)).map Batch.onset = (b :: (l ++ m)).map Batch.onset := by
      simp [own]
    rw [same]
    refine (middle.symm.map Batch.onset).subperm.trans ?_
    exact ((List.sublist_append_right _ _).map _).subperm

theorem handle (h : c.Spread) (event : IdentityEvent) (remote : String → Remote) :
    ((Coordinator.handle event remote).run c).2.Spread := by
  have fewer : c.ended.onsets.Subperm c.onsets := by
    have left : c.ended.onsets = c.inFlight.map Batch.onset := by simp [onsets, ended]
    rw [left]
    exact ((List.sublist_append_right _ _).map _).subperm
  rcases c.handle_cases event remote with ⟨r, hr⟩ | ⟨r, cache, log, state, hr⟩ |
    ⟨user, -, -, r, backend, plan, cache, log, state, hr, -⟩ <;> rw [hr]
  · exact h
  · exact h.later fewer (.inl (Nat.lt_succ_self _))
  · exact h.later fewer (.inl (Nat.lt_succ_self _))

end Spread

end Coordinator

/-! ## Worlds -/

/-- The step moves no course to the semester that it is in. -/
def Event.Moving : Event → Prop
  | .act a => ∀ m ∈ a.mutations, ¬ m.Idle
  | _ => True

instance : DecidablePred Event.Moving
  | .act _ => inferInstanceAs (Decidable (∀ _ ∈ _, _))
  | .late _ | .identity .. => instDecidableTrue

namespace World

open Coordinator

variable {w : World} {e : Event} {l : List Flight} {f : Flight}

/-- A write that ends has no earlier twin if all batches began at different times. -/
theorem Tracked.untwinned (h : w.Tracked) (spread : w.coordinator.Spread) (e : Event) : w.Untwinned e := by
  rintro ⟨l, f⟩ he g hg
  obtain ⟨m, listed, -⟩ := h.ending_listed he
  have distinct : (w.coordinator.inFlight.map Batch.onset).Nodup :=
    ((List.sublist_append_right _ _).map _).nodup spread.distinct
  rw [Bool.eq_false_iff]
  intro same
  refine unlisted_elsewhere (listed ▸ distinct) ?_
  rw [← Batch.onset_eq same]
  exact List.mem_map_of_mem (List.mem_append_left _ (List.mem_map_of_mem hg))

theorem Tracked.spread_ends (h : w.Tracked) (spread : w.coordinator.Spread) (he : w.ending e = some (l, f)) :
    (w.step e).1.coordinator.Spread := by
  obtain ⟨m, listed, -, next, -⟩ := h.ending_listed he
  obtain ⟨-, rest⟩ :=
    h.coordinator.finishFlush_removes listed (List.forall_mem_map.2 (h.untwinned spread e _ he)) f.cause
  rw [next]
  exact spread.finishFlush (fun b hb => (h.coordinator.sound.queued b hb).1) listed rest

theorem spread_launch (spread : w.coordinator.Spread) : w.launch.1.coordinator.Spread := by
  have begun := spread.beginFlush
  unfold World.launch
  split <;> simp_all

/-- Steps that move courses only elsewhere keep the batches apart. -/
theorem Tracked.spread_step (h : w.Tracked) (spread : w.coordinator.Spread) (moving : e.Moving) :
    (w.step e).1.coordinator.Spread := by
  cases e with
  | act a =>
    cases a with
    | mutate m => exact spread.apply (moving m (by simp [Act.mutations]))
    | retry failure => exact retry_keeps (P := Spread) (fun m hm _ hc => hc.apply (moving m hm)) _ spread
    | flush => exact spread_launch spread
    | expire =>
      rw [World.step]
      obtain ⟨timers, -, he⟩ | he := w.expire_cases <;> rw [he]
      · exact spread_launch (spread.still rfl rfl rfl rfl)
      · exact spread
    | reply i r => exact spread
    | finish i =>
      cases hr : ready? w.flights i with
      | none => simpa [World.step, World.act, hr] using spread
      | some f => exact h.spread_ends spread (e := .act (.finish i)) (by simp [ending, hr]; exact ⟨rfl, rfl⟩)
    | close => exact spread.still (stopTimer_queued _) (stopTimer_inFlight _) (stopTimer_epoch _) (stopTimer_plan _)
    | listen fault => exact spread.still rfl rfl rfl rfl
    | unlisten i =>
      simp only [World.step, World.act]
      split
      · exact spread
      · exact spread.still rfl rfl rfl rfl
  | late a =>
    cases a with
    | reply i r => exact spread
    | finish i =>
      cases hr : ready? w.late i with
      | none => simpa [World.step, lateAct, hr] using spread
      | some f => exact h.spread_ends spread (e := .late (.finish i)) (by simp [ending, hr]; exact ⟨rfl, rfl⟩)
  | identity event remote =>
    have handled := spread.handle event fun _ => remote
    simp only [World.step, World.identify]
    split <;> exact handled

/-- Take any run as before in which no course is moved to the semester that it is in, every session that ends can do so,
leaves no batch behind or leaves a write under way, and no plan is too long for the cache. Then every flush removes
just its own batch and raises nothing, and the coordinator reports something pending if and only if a batch waits or
a write has not ended. -/
theorem reports_moving {quiet : Float} {cache : Option Cache}
    (run : Runs (fun w e => w.Sane e ∧ w.Departs e ∧ w.Stores e ∧ e.Moving) (fun w e => (w.step e).1)
      { coordinator := .new quiet cache } w) :
    w.Exact ∧ ∀ e, w.Sane e → w.Departs e → w.Stores e → w.Clean e ∧ (w.step e).1.Exact := by
  have kept : w.Tracked ∧ w.coordinator.Spread := by
    refine run.keeps (P := fun w => w.Tracked ∧ w.coordinator.Spread) ⟨tracked_new quiet cache,
      List.nodup_nil, nofun⟩ ?_
    rintro w e ⟨tracked, spread⟩ ⟨sane, departs, stores, moving⟩
    exact ⟨(tracked.step sane ⟨tracked.untwinned spread e, departs, stores⟩).1,
      tracked.spread_step spread moving⟩
  obtain ⟨tracked, spread⟩ := kept
  refine ⟨tracked.exact, fun e sane departs stores => ?_⟩
  obtain ⟨next, clean⟩ := tracked.step sane ⟨tracked.untwinned spread e, departs, stores⟩
  exact ⟨clean, next.exact⟩

end World
end DegreePlan.Sync
