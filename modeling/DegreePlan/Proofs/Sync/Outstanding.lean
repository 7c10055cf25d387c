import DegreePlan.Proofs.Sync.Pending

/-!
# The report of what is outstanding

Batches that wait and writes that have not ended are outstanding. As long as every write that ends removes its own
batch from the list, every session that ends can do so, and no plan is too long for the cache, the coordinator reports
something pending just while something is outstanding, whatever nests in the writes and however they end.
-/

namespace DegreePlan.Sync

open Plan

/-- The mutations that a step of a session makes. -/
def Act.mutations : Act → List Mutation
  | .mutate m => [m]
  | .retry failure => failure.mutations
  | _ => []

/-- The step begins a flush or ends one. -/
def Event.Flushes : Event → Prop
  | .act .flush | .act .expire | .act (.finish _) | .late (.finish _) => True
  | _ => False

namespace World

open Coordinator

/-- A batch waits, or a write has not ended. -/
def outstanding (w : World) : Bool := w.coordinator.queued.isSome || !(w.late ++ w.flights).isEmpty

/-- The coordinator reports something pending if something is outstanding, and otherwise it reports to be idle. -/
def Exact (w : World) : Prop :=
  w.coordinator.hasPending = w.outstanding ∧ w.coordinator.state = if w.outstanding then .pending else .idle

/-- The ids that a mutation names can be looked up, and the plans that are made or loaded keep their averages in
range. -/
def Sane (w : World) : Event → Prop
  | .act a => (∀ m ∈ a.mutations, m.Keyed) ∧ a.Makes Averaged w
  | .late _ => True
  | .identity event remote =>
    let p := (w.identify event remote).1.coordinator.plan
    (∀ s ∈ p.semesters, s.Dated) ∧ Averaged p

instance (w : World) : DecidablePred w.Sane
  | .act _ => inferInstanceAs (Decidable (_ ∧ _))
  | .late _ => instDecidableTrue
  | .identity .. => inferInstanceAs (Decidable (_ ∧ _))

/-- The write that ends in a step, after those that began before it. -/
def ending (w : World) : Event → Option (List Flight × Flight)
  | .act (.finish i) => (ready? w.flights i).map (w.late ++ w.flights.take i, ·)
  | .late (.finish i) => (ready? w.late i).map (w.late.take i, ·)
  | _ => none

/-- No write that began before the one that ends has the same contents. -/
def Untwinned (w : World) (e : Event) : Prop := ∀ p ∈ w.ending e, ∀ g ∈ p.1, g.batch.same p.2.batch = false

/-- A session that ends can do so, or leaves no batch behind, or leaves a write under way. -/
def Departs (w : World) : Event → Prop
  | .identity event remote =>
    (w.identify event remote).1.coordinator.epoch ≠ w.coordinator.epoch → w.coordinator.Leaves
  | _ => True

instance (w : World) : DecidablePred w.Departs
  | .identity .. => inferInstanceAs (Decidable (_ → _))
  | .act _ | .late _ => instDecidableTrue

/-- No step of a session stops because the plan is too long for the cache. -/
def Stores (w : World) : Event → Prop
  | .act a => ∀ f ∈ (w.act a).2.fault, f ≠ .value .integerTooLongToWrite
  | .late a => ∀ f ∈ (w.lateAct a).2.fault, f ≠ .value .integerTooLongToWrite
  | .identity .. => True

instance (f : Fault) : Decidable (f = .value .integerTooLongToWrite) :=
  decidable_of_iff ((f matches .value .integerTooLongToWrite) = true) (by split <;> simp_all)

instance (w : World) : DecidablePred w.Stores
  | .act _ | .late _ => inferInstanceAs (Decidable (∀ _ ∈ _, ¬ _))
  | .identity .. => instDecidableTrue

/-- Neither another write of the same contents nor the end of a session nor a save comes in the way. -/
def Undisturbed (w : World) (e : Event) : Prop := w.Untwinned e ∧ w.Departs e ∧ w.Stores e

instance (w : World) : DecidablePred w.Untwinned := fun _ => inferInstanceAs (Decidable (∀ _ ∈ _, _))

instance (w : World) : DecidablePred w.Undisturbed := fun _ => inferInstanceAs (Decidable (_ ∧ _))

/-- A flush raises nothing, and the write that ends removes just its own batch. -/
def Clean (w : World) (e : Event) : Prop :=
  (e.Flushes → (w.step e).2.fault = none) ∧
    ∀ p ∈ w.ending e, Removes p.2.batch w.coordinator.inFlight (w.step e).1.coordinator.inFlight

/-! ## Tracked worlds -/

variable {w v : World} {e : Event} {l : List Flight} {f : Flight}

/-- Just the writes that have not ended are listed, and the coordinator keeps track of them. -/
structure Tracked (w : World) : Prop where
  coordinator : w.coordinator.Tracked
  listed : w.coordinator.inFlight = (w.late ++ w.flights).map (·.batch)

theorem tracked_new (quiet : Float) (cache : Option Cache) : Tracked { coordinator := .new quiet cache } :=
  ⟨⟨(counted_new quiet cache).coordinator, ⟨nofun, nofun, nofun, nofun⟩, rfl, List.nodup_nil⟩, rfl⟩

theorem Tracked.exact (h : w.Tracked) : w.Exact := by
  have reported : w.coordinator.hasPending = w.outstanding := by
    simp only [hasPending, outstanding, h.listed, List.isEmpty_map]
  exact ⟨reported, reported ▸ h.coordinator.settled⟩

/-- The coordinator goes on while the same writes are under way. -/
theorem Tracked.on (h : w.Tracked) (hv : v.coordinator.Tracked) (hi : v.coordinator.inFlight = w.coordinator.inFlight)
    (hf : (v.late ++ v.flights).map (·.batch) = (w.late ++ w.flights).map (·.batch)) : v.Tracked where
  coordinator := hv
  listed := by rw [hi, h.listed, hf]

theorem ofResult_fault {α : Type} {r : Except Fault α} {f : Fault} :
    (Report.ofResult r).fault = some f ↔ r = .error f := by
  cases r <;> simp [Report.ofResult]

theorem answered_fault (fs : List Flight) (i : Nat) (r : Reply) : (answered fs i r).2.fault = none := by
  unfold answered
  split <;> rfl

theorem answered_batches (fs : List Flight) (i : Nat) (r : Reply) :
    (answered fs i r).1.map (·.batch) = fs.map (·.batch) := by
  unfold answered
  split
  · rfl
  · next f hf =>
    refine List.ext_getElem? fun j => ?_
    rw [List.map_set, Flight.answer_batch, List.getElem?_set, List.getElem?_map, List.length_map]
    split
    · next hj =>
      subst hj
      obtain ⟨hi, -⟩ := List.getElem?_eq_some_iff.1 hf
      rw [if_pos hi, hf]
      rfl
    · rfl

theorem ready?_split {fs : List Flight} {i : Nat} (h : ready? fs i = some f) :
    fs = fs.take i ++ f :: fs.drop (i + 1) ∧ fs.eraseIdx i = fs.take i ++ fs.drop (i + 1) := by
  obtain ⟨hi, hget⟩ := List.getElem?_eq_some_iff.1 (Option.filter_eq_some_iff.1 h).1
  exact ⟨by rw [← hget, List.cons_getElem_drop_succ, List.take_append_drop], List.eraseIdx_eq_take_drop_succ ..⟩

/-- A write that ends is one of those that have not ended. -/
theorem ending_step (h : w.ending e = some (l, f)) : ∃ m, w.late ++ w.flights = l ++ f :: m ∧
    (w.step e).1.late ++ (w.step e).1.flights = l ++ m ∧
    (w.step e).1.coordinator = ((finishFlush f.batch f.cause).run w.coordinator).2 ∧
    (w.step e).2 = .ofFlushed ((finishFlush f.batch f.cause).run w.coordinator).1 := by
  unfold ending at h
  split at h
  · next i =>
    obtain ⟨g, hg, he⟩ := Option.map_eq_some_iff.1 h
    cases he
    obtain ⟨whole, erased⟩ := ready?_split hg
    refine ⟨w.flights.drop (i + 1), ?_, ?_, ?_, ?_⟩
    · rw [List.append_assoc, ← whole]
    · simp [step, act, hg, erased]
    · simp [step, act, hg]
    · simp [step, act, hg]
  · next i =>
    obtain ⟨g, hg, he⟩ := Option.map_eq_some_iff.1 h
    cases he
    obtain ⟨whole, erased⟩ := ready?_split hg
    refine ⟨w.late.drop (i + 1) ++ w.flights, ?_, ?_, ?_, ?_⟩
    · rw [← List.cons_append, ← List.append_assoc, ← whole]
    · simp [step, lateAct, hg, erased]
    · simp [step, lateAct, hg]
    · simp [step, lateAct, hg]
  · cases h

/-- Its batch is listed behind those of the writes before it. -/
theorem Tracked.ending_listed (h : w.Tracked) (he : w.ending e = some (l, f)) : ∃ m : List Flight,
    w.coordinator.inFlight = l.map (·.batch) ++ f.batch :: m.map (·.batch) ∧
    (w.step e).1.late ++ (w.step e).1.flights = l ++ m ∧
    (w.step e).1.coordinator = ((finishFlush f.batch f.cause).run w.coordinator).2 ∧
    (w.step e).2 = .ofFlushed ((finishFlush f.batch f.cause).run w.coordinator).1 := by
  obtain ⟨m, whole, rest⟩ := ending_step he
  exact ⟨m, by rw [h.listed, whole, List.map_append, List.map_cons], rest⟩

/-- The end of a write tells whether the plan that comes back is too long for the cache. -/
theorem Stores.ends (h : w.Stores e) (he : w.ending e = some (l, f)) :
    ¬ BreaksOff ((finishFlush f.batch f.cause).run w.coordinator).1 := by
  obtain ⟨-, -, -, -, report⟩ := ending_step he
  intro broken
  have raised : (w.step e).2.fault = some (.value .integerTooLongToWrite) := by rw [report, broken]; rfl
  cases e with
  | act a => exact h _ raised rfl
  | late a => exact h _ raised rfl
  | identity => cases he

theorem Tracked.ends (h : w.Tracked) (he : w.ending e = some (l, f)) (own : w.Untwinned e) (stores : w.Stores e) :
    (w.step e).1.Tracked ∧ (w.step e).2.fault = none ∧
      Removes f.batch w.coordinator.inFlight (w.step e).1.coordinator.inFlight := by
  obtain ⟨m, listed, left, next, report⟩ := h.ending_listed he
  have twins : ∀ x ∈ l.map (·.batch), x.same f.batch = false := List.forall_mem_map.2 (own _ he)
  obtain ⟨ok, tracked⟩ := h.coordinator.finishFlush listed twins f.cause (stores.ends he)
  obtain ⟨-, rest⟩ := h.coordinator.finishFlush_removes listed twins f.cause
  refine ⟨⟨next ▸ tracked, by rw [next, rest, left, List.map_append]⟩, ?_, _, _, listed, by rw [next, rest]⟩
  rw [report]
  revert ok
  rcases ((finishFlush f.batch f.cause).run w.coordinator).1 with f | r <;>
    simp [Except.isOk, Except.toBool, Report.ofFlushed]

theorem Tracked.launch (h : w.Tracked) : w.launch.1.Tracked ∧ w.launch.2.fault = none := by
  have begun := h.coordinator.beginFlush
  unfold World.launch
  rcases h.coordinator.sound.beginFlush_ok with ⟨-, hr⟩ | ⟨b, write, -, hr⟩ <;> rw [hr] at begun ⊢
  · exact ⟨h.on begun (stopTimer_inFlight _) rfl, rfl⟩
  · refine ⟨⟨begun, ?_⟩, rfl⟩
    simp [h.listed]

/-- Neither the plan nor what is pending changes. -/
theorem Tracked.still (h : w.Tracked) {d : Coordinator} (hd : d.Counted) (hp : d.plan = w.coordinator.plan)
    (hq : d.queued = w.coordinator.queued) (hi : d.inFlight = w.coordinator.inFlight)
    (hs : d.state = w.coordinator.state) (he : d.epoch = w.coordinator.epoch) (ho : d.owner = w.coordinator.owner) :
    Tracked { w with coordinator := d } :=
  h.on (h.coordinator.rest hd hp hq hi hs he ho) hi rfl

theorem Tracked.act (h : w.Tracked) {a : Act} (keyed : ∀ m ∈ a.mutations, m.Keyed) (makes : a.Makes Averaged w)
    (own : w.Untwinned (.act a)) (stores : w.Stores (.act a)) :
    (w.act a).1.Tracked ∧ ((Event.act a).Flushes → (w.act a).2.fault = none) := by
  have counted := h.coordinator.counted
  cases a with
  | mutate m =>
    obtain ⟨inFlight, ⟨broken, -⟩ | ⟨-, tracked⟩⟩ :=
      h.coordinator.apply (keyed m (by simp [Act.mutations])) makes
    · exact absurd rfl (stores _ (ofResult_fault.2 broken))
    · exact ⟨h.on tracked inFlight rfl, False.elim⟩
  | retry failure =>
    obtain ⟨inFlight, ⟨broken, -⟩ | ⟨-, tracked⟩⟩ := h.coordinator.retry keyed makes
    · exact absurd rfl (stores _ (ofResult_fault.2 broken))
    · exact ⟨h.on tracked inFlight rfl, False.elim⟩
  | flush => exact ⟨h.launch.1, fun _ => h.launch.2⟩
  | expire =>
    obtain ⟨timers, fewer, he⟩ | he := w.expire_cases <;> rw [he]
    · have expired : Tracked { w with coordinator := { w.coordinator with timers } } :=
        h.still (counted.fewer fewer) rfl rfl rfl rfl rfl rfl
      exact ⟨expired.launch.1, fun _ => expired.launch.2⟩
    · exact ⟨h, fun _ => rfl⟩
  | reply i r =>
    refine ⟨h.on h.coordinator rfl ?_, False.elim⟩
    simp only [World.act, List.map_append, answered_batches]
  | finish i =>
    cases hr : ready? w.flights i with
    | none =>
      have same : w.act (.finish i) = (w, {}) := by simp [World.act, hr]
      rw [same]
      exact ⟨h, fun _ => rfl⟩
    | some f =>
      have he : w.ending (.act (.finish i)) = some (w.late ++ w.flights.take i, f) := by simp [ending, hr]
      obtain ⟨tracked, fault, -⟩ := h.ends he own stores
      exact ⟨tracked, fun _ => fault⟩
  | close =>
    have grown := (grows_stopTimer _ counted).1
    exact ⟨h.still grown (stopTimer_plan _) (stopTimer_queued _) (stopTimer_inFlight _) (stopTimer_state _)
      (stopTimer_epoch _) (stopTimer_owner _), False.elim⟩
  | listen fault => exact ⟨h.still (grows_listen _ fault counted).1 rfl rfl rfl rfl rfl rfl, False.elim⟩
  | unlisten i =>
    simp only [World.act]
    split
    · exact ⟨h, False.elim⟩
    · exact ⟨h.still (grows_unlisten _ _ counted).1 rfl rfl rfl rfl rfl rfl, False.elim⟩

/-- A session that ends makes the writes under way late. -/
theorem Tracked.identify (h : w.Tracked) {event : IdentityEvent} {remote : Remote}
    (sane : w.Sane (.identity event remote)) (departs : w.Departs (.identity event remote)) :
    (w.identify event remote).1.Tracked := by
  have same : (w.identify event remote).1.coordinator = ((handle event fun _ => remote).run w.coordinator).2 ∧
      ((w.identify event remote).1.late ++ (w.identify event remote).1.flights).map (·.batch) =
        (w.late ++ w.flights).map (·.batch) := by
    unfold World.identify
    dsimp only
    split <;> simp
  obtain ⟨next, flights⟩ := same
  simp only [Sane, Departs, next] at sane departs
  have goes : ((handle event fun _ => remote).run w.coordinator).2 = w.coordinator ∨ w.coordinator.Leaves := by
    rcases w.coordinator.handle_cases event fun _ => remote with ⟨r, hr⟩ | ⟨r, cache, log, state, hr⟩ |
      ⟨user, -, -, r, backend, plan, cache, log, state, hr, -⟩
    · exact .inl (by rw [hr])
    · exact .inr (departs (by rw [hr]; exact Nat.succ_ne_self _))
    · exact .inr (departs (by rw [hr]; exact Nat.succ_ne_self _))
  obtain ⟨tracked, inFlight⟩ := h.coordinator.handle goes sane.1 sane.2
  exact h.on (next ▸ tracked) (next ▸ inFlight) flights

/-- What a step keeps that is not disturbed. -/
theorem Tracked.step (h : w.Tracked) (sane : w.Sane e) (undisturbed : w.Undisturbed e) :
    (w.step e).1.Tracked ∧ w.Clean e := by
  obtain ⟨own, departs, stores⟩ := undisturbed
  have removes : ∀ p ∈ w.ending e, Removes p.2.batch w.coordinator.inFlight (w.step e).1.coordinator.inFlight :=
    fun p hp => (h.ends hp own stores).2.2
  cases e with
  | act a =>
    obtain ⟨tracked, clean⟩ := h.act sane.1 sane.2 own stores
    exact ⟨tracked, clean, removes⟩
  | late a =>
    cases a with
    | reply i r =>
      refine ⟨h.on h.coordinator rfl ?_, False.elim, removes⟩
      simp only [World.step, lateAct, List.map_append, answered_batches]
    | finish i =>
      cases hr : ready? w.late i with
      | none =>
        have same : w.step (.late (.finish i)) = (w, {}) := by simp [World.step, lateAct, hr]
        rw [same]
        exact ⟨h, fun _ => by rw [same], removes⟩
      | some f =>
        have he : w.ending (.late (.finish i)) = some (w.late.take i, f) := by simp [ending, hr]
        obtain ⟨tracked, fault, -⟩ := h.ends he own stores
        exact ⟨tracked, fun _ => fault, removes⟩
  | identity event remote => exact ⟨h.identify sane departs, False.elim, removes⟩

/-- If a batch before it has the same contents, a write does not remove its own batch. -/
theorem Tracked.not_removes (h : w.Tracked) (he : w.ending e = some (l, f)) {g : Flight} (hg : g ∈ l)
    (same : g.batch.same f.batch = true) :
    ¬ Removes f.batch w.coordinator.inFlight (w.step e).1.coordinator.inFlight := by
  rintro ⟨l', m', before, after⟩
  obtain ⟨m, listed, -, next, -⟩ := h.ending_listed he
  obtain ⟨rest, dropped, stays⟩ := dropBatch?_twin (m.map (·.batch)) (List.mem_map_of_mem hg) same
  rw [← listed] at dropped
  -- the number of the batch is still listed, and it was listed once
  have numbers : (w.step e).1.coordinator.inFlight.map (·.serial) = rest.map (·.serial) := by
    obtain ⟨d, hd, kept | ⟨state, marked⟩⟩ := finishFlush_inFlight dropped f.cause
    · rw [next, kept]
    · rw [next, marked, mark_serials, hd]
  have still : f.batch.serial ∈ (l' ++ m').map (·.serial) := by
    rw [← after, numbers]
    exact List.mem_map_of_mem stays
  exact unlisted_elsewhere (before ▸ h.coordinator.numbers) still

/-- A session that cannot end leaves the state of before, with nothing outstanding. -/
theorem Tracked.departs (h : w.Tracked) (exact : (w.step e).1.Exact) : w.Departs e := by
  cases e with
  | act a => trivial
  | late a => trivial
  | identity event remote =>
    intro ends
    have same : (w.identify event remote).1.coordinator = ((handle event fun _ => remote).run w.coordinator).2 := by
      unfold World.identify
      dsimp only
      split <;> rfl
    -- nothing waits afterwards, so an exact coordinator has to be idle if nothing is listed
    obtain ⟨reported, state⟩ : (w.identify event remote).1.Exact := exact
    rw [← reported] at state
    rw [same] at ends state
    by_contra stuck
    simp only [Leaves, not_or, not_exists, not_not] at stuck
    obtain ⟨blocked, waits, nothing⟩ := stuck
    rcases w.coordinator.handle_ends event fun _ => remote with unchanged |
      ⟨queued, inFlight, ⟨⟨cache, hc⟩, -⟩ | ⟨-, kept⟩⟩
    · exact ends (by rw [unchanged])
    · exact blocked cache hc
    · have before : w.coordinator.hasPending = true := by simp [hasPending, Option.isSome_iff_ne_none.2 waits]
      have settled := h.coordinator.settled
      rw [Settled, before] at settled
      rw [kept, settled, hasPending, queued, inFlight, nothing] at state
      cases state

/-- What stops because the plan is too long for the cache leaves the coordinator in the middle, or was a flush. -/
theorem Tracked.stores (h : w.Tracked) (sane : w.Sane e) (clean : e.Flushes → (w.step e).2.fault = none)
    (exact : (w.step e).1.Exact) : w.Stores e := by
  have unfinished (state : (w.step e).1.coordinator.state = .applying) : False := by
    have reported := exact.2
    rw [state] at reported
    split at reported <;> cases reported
  cases e with
  | identity => trivial
  | late a =>
    intro f raised
    cases a with
    | reply i r => cases raised.symm.trans (answered_fault w.late i r)
    | finish i => cases raised.symm.trans (clean trivial)
  | act a =>
    intro f raised
    cases a with
    | mutate m =>
      rintro rfl
      have broken : BreaksOff ((apply m).run w.coordinator).1 := ofResult_fault.1 raised
      obtain ⟨-, ⟨-, middle⟩ | ⟨whole, -⟩⟩ :=
        h.coordinator.apply (sane.1 m (by simp [Act.mutations])) sane.2
      · exact unfinished middle
      · exact whole broken
    | retry failure =>
      rintro rfl
      have broken : BreaksOff ((retry failure).run w.coordinator).1 := ofResult_fault.1 raised
      obtain ⟨-, ⟨-, middle⟩ | ⟨whole, -⟩⟩ := h.coordinator.retry sane.1 sane.2
      · exact unfinished middle
      · exact whole broken
    | flush | expire | finish i => cases raised.symm.trans (clean trivial)
    | reply i r => cases raised.symm.trans (answered_fault w.flights i r)
    | close | listen fault => cases raised
    | unlisten i =>
      simp only [World.act] at raised
      split at raised <;> cases raised

/-- Take any run of mutations, retries, flushes, timers, answers, late writes and identity events, however they nest, in
which the ids that are named can be looked up and the averages stay in range. As long as no write ends that has the
contents of one that began before it and is still under way, no session ends that cannot, and nothing stops because the
plan is too long for the cache, every flush removes just its own batch and raises nothing, and the coordinator reports
something pending if and only if a batch waits or a write has not ended. The first step of another kind breaks this. -/
theorem reports_outstanding {quiet : Float} {cache : Option Cache}
    (run : Runs (fun w e => w.Sane e ∧ w.Undisturbed e) (fun w e => (w.step e).1)
      { coordinator := .new quiet cache } w) :
    w.Exact ∧ ∀ e, w.Sane e → (w.Clean e ∧ (w.step e).1.Exact ↔ w.Undisturbed e) := by
  have tracked : w.Tracked :=
    run.keeps (tracked_new quiet cache) fun _ e h ⟨sane, undisturbed⟩ => (h.step sane undisturbed).1
  refine ⟨tracked.exact, fun e sane =>
    ⟨fun ⟨clean, exact⟩ => ⟨?_, tracked.departs exact, tracked.stores sane clean.1 exact⟩,
    fun undisturbed => ?_⟩⟩
  · rintro ⟨l, f⟩ he g hg
    rw [Bool.eq_false_iff]
    exact fun same => tracked.not_removes he hg same (clean.2 _ he)
  · obtain ⟨next, clean⟩ := tracked.step sane undisturbed
    exact ⟨clean, next.exact⟩

/-- A course is completed and another one is added while this is written. The second write ends first, and fails; its
batch waits again. Then the first one can end. -/
theorem reports_outstanding_overlapping :
    let remote : Remote := { stored := some (.ok (.arr [.obj [("id", .int 202400), ("courses", .arr
      [.obj [("id", .int 1), ("code", .str "CS 101"), ("semester_id", .int 202400)]])]])) }
    let course : Entry := { id := .int 2, code := .str "CS 102", title := .str "", credits := 3, status := .planned
                            semester := .int 202400, grade := none }
    let events : List Event := [.identity { user := some "user-a", kind := .signedIn } remote,
      .act (.mutate (.setStatus (.int 202400) (.int 1) (.str "completed") .null)), .act .flush,
      .act (.mutate (.add course)), .act .flush, .act (.mutate (.setGrade (.int 202400) (.int 2) (.str "A"))),
      .act (.reply 1 .rejected), .act (.finish 1), .act (.reply 0 .accepted)]
    let w : World := events.foldl (fun w e => (w.step e).1) { coordinator := .new 0.4 none }
    let v := (w.step (.act (.finish 0))).1
    w.Exact ∧ w.coordinator.inFlight.length = 1 ∧ w.Clean (.act (.finish 0)) ∧ v.Exact ∧
      v.coordinator.inFlight.isEmpty ∧
      v.coordinator.queued.isSome := by
  intro remote course events w v
  have run : Runs (fun w e => World.Sane w e ∧ w.Undisturbed e) (fun w e => (World.step w e).1)
    { coordinator := .new 0.4 none } w :=
    Runs.start.all events (by decide +kernel)
  obtain ⟨exact, next⟩ := reports_outstanding run
  obtain ⟨clean, after⟩ := (next (.act (.finish 0)) (by decide +kernel)).2 (by decide +kernel)
  exact ⟨exact, by decide +kernel, clean, after, by decide +kernel, by decide +kernel⟩

/-- A course is moved to the semester that it is in, and while this is written it is moved there again. The second write
ends first and removes the batch of the first one, which then raises. Nothing is outstanding any more, but the batch of
the second write stays on the list and the coordinator reports something pending. -/
theorem reports_finished_write :
    let remote : Remote := { stored := some (.ok (.arr [.obj [("id", .int 202400), ("courses", .arr
      [.obj [("id", .int 1), ("code", .str "CS 101"), ("semester_id", .int 202400)]])]])) }
    let move : Event := .act (.mutate (.move (.int 1) (.int 202400) (.int 202400)))
    let events : List Event :=
      [.identity { user := some "user-a", kind := .signedIn } remote, move, .act .flush, move, .act .flush,
      .act (.reply 1 .accepted), .act (.finish 1), .act (.reply 0 .accepted)]
    let first : World := { coordinator := .new 0.4 none }
    let w := events.foldl (fun w e => (w.step e).1) first
    let v := (w.step (.act (.finish 0))).1
    allAllowed Sane (fun w e => (w.step e).1) first (events ++ [.act (.finish 0)]) = true ∧
      (w.step (.act (.finish 0))).2.fault.isSome = true ∧ v.outstanding = false ∧
      v.coordinator.hasPending = true ∧ v.coordinator.state = .pending := by
  decide +kernel

/-- A file stands where the cache would be, and a user signs out while a course waits to be written. The sign-out
raises. Nothing is outstanding any more, but the state is that of before. -/
theorem reports_discarded_batch :
    let remote : Remote := { stored := some (.ok (.arr [.obj [("id", .int 202400), ("courses", .arr
      [.obj [("id", .int 1), ("code", .str "CS 101"), ("semester_id", .int 202400)]])]])) }
    let out : Event := .identity { user := some "user-a", kind := .signedOut } {}
    let events : List Event := [.identity { user := some "user-a", kind := .signedIn } remote,
      .act (.mutate (.setStatus (.int 202400) (.int 1) (.str "completed") .null)), out]
    let first : World := { coordinator := .new 0.4 (some { directory := .blocked }) }
    let w := events.foldl (fun w e => (w.step e).1) first
    allAllowed Sane (fun w e => (w.step e).1) first events = true ∧ w.outstanding = false ∧
      w.coordinator.hasPending = false ∧ w.coordinator.state = .pending := by
  decide +kernel

end World
end DegreePlan.Sync
