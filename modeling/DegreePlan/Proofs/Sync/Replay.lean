import Mathlib.Data.List.Infix
import DegreePlan.Proofs.Plan.Reorder
import DegreePlan.Proofs.Sync.Rollback

/-!
# Batches as logs

The mutations of a batch are a log: applied one after the other to the snapshot of the batch, they
give the plan again, and what they do together is what the batch names. A write that fails after
newer changes is joined to the waiting batch, and then the two logs are one.
-/

namespace DegreePlan.Sync

open Plan

/-! ## Replays -/

/-- A mutation that is made on a plan is made on the same semesters in another order, and does the same. -/
theorem reordered_apply {p p' q : Plan} {m : Mutation} {e : Effect} (h : Reordered p q) (hp : p.Valid)
    (hm : m.apply p = .ok (e, p')) : ∃ q', m.apply q = .ok (e, q') ∧ Reordered p' q' := by
  suffices echoes : Echoes (m.apply p) (m.apply q) from echoes e p' hm
  cases m with
  | add entry =>
    intro e p' hm
    obtain ⟨r, hr, hm⟩ := bind_eq_ok.1 hm
    cases hm
    obtain ⟨q', hq', hpq⟩ := h.addCourse hp hr
    exact ⟨q', by rw [Mutation.apply, hq']; rfl, hpq⟩
  | remove semester id =>
    refine (h.removeCourse hp semester id).then fun removed p q hpq => ?_
    cases removed with
    | none => exact echoes_pure _ hpq
    | some c => exact echoes_pure _ hpq
  | move id source target => exact (h.moveCourse hp id source target).then fun _ _ _ hpq => echoes_pure _ hpq
  | setStatus semester id status grade =>
    exact (h.changeCourse hp semester id _).then fun _ _ _ hpq => echoes_pure _ hpq
  | setGrade semester id grade => exact (h.changeCourse hp semester id _).then fun _ _ _ hpq => echoes_pure _ hpq
  | generate start graduation =>
    simp only [Mutation.apply, h.ordered]
    exact .bind fun before => (h.generate start graduation .null).then fun _ _ _ hpq => echoes_pure _ hpq
  | clearPlanned => exact h.clearPlanned.then fun _ _ _ hpq => echoes_pure _ hpq

/-- Applied in turn, the mutations take the one plan to the other and do something each, and every plan
on the way has the property. -/
inductive Replays (P : Plan → Prop) : Plan → List Mutation → List Effect → Plan → Prop where
  | done (p : Plan) : Replays P p [] [] p
  | next {p q r : Plan} {m : Mutation} {e : Effect} {ms : List Mutation} {es : List Effect}
    (made : m.apply p = .ok (e, q))
      (does : e.isEmpty = false) (good : P q) (rest : Replays P q ms es r) : Replays P p (m :: ms) (e :: es) r

/-- A property that does not depend on the order of the semesters. -/
def Orderless (P : Plan → Prop) : Prop := ∀ p q, Reordered p q → P p → P q

namespace Replays

variable {P : Plan → Prop} {p q r : Plan} {ms ns : List Mutation} {es fs : List Effect}

theorem append (h : Replays P p ms es q) (k : Replays P q ns fs r) : Replays P p (ms ++ ns) (es ++ fs) r := by
  induction h with
  | done => exact k
  | next made does good _ ih => exact .next made does good (ih k)

theorem one {m : Mutation} {e : Effect} (made : m.apply p = .ok (e, q)) (does : e.isEmpty = false) (good : P q) :
    Replays P p [m] [e] q := .next made does good (.done q)

theorem valid (h : Replays P p ms es q) (hp : p.Valid) : q.Valid := by
  induction h with
  | done => exact hp
  | next made _ _ _ ih => exact ih ((Mutation.done made).made hp).valid

/-- A replay does not depend on the order of the semesters. -/
theorem reorder {p' : Plan} (h : Replays P p ms es q) (hP : Orderless P) (hp : p.Valid) (hpp : Reordered p p') :
    ∃ q', Replays P p' ms es q' ∧ Reordered q q' := by
  induction h generalizing p' with
  | done p => exact ⟨p', .done p', hpp⟩
  | next made does good _ ih =>
    obtain ⟨q', made', hqq⟩ := reordered_apply hpp hp made
    obtain ⟨r', rest, hrr⟩ := ih ((Mutation.done made).made hp).valid hqq
    exact ⟨r', .next made' does (hP _ _ hqq good) rest, hrr⟩

end Replays

/-! ## Logs -/

/-- The plan that a snapshot holds. -/
def origin (s : Snapshot) : Plan := { owner := s.owner, semesters := s.semesters }

theorem reordered_origin {p : Plan} {s : Snapshot} (h : p.snapshot = .ok s) : Reordered (origin s) p := by
  obtain ⟨xs, hx, rfl⟩ := snapshot_eq_ok.1 h
  obtain ⟨-, rfl⟩ := ordered_eq_ok.1 hx
  exact sorted_sorted _

/-- The mutations of the batch lead from its snapshot to the plan, and the batch names just what they
did. -/
structure Batch.Logs (P : Plan → Prop) (b : Batch) (p : Plan) (es : List Effect) (q : Plan) : Prop where
  replays : Replays P (origin b.snapshot) b.mutations es q
  leads : Reordered q p
  semesters : ∀ v : Json, v.isIn b.semesters = v.isIn (es.flatMap (·.semesters))
  deleted : ∀ v : Json, v.isIn b.deleted = v.isIn (es.flatMap (·.deleted))

/-- The batch has mutations, and they are a log of how the plan came about. -/
def Batch.Tells (P : Plan → Prop) (b : Batch) (p : Plan) : Prop := b.mutations ≠ [] ∧ ∃ es q, b.Logs P p es q

namespace Batch

variable {P : Plan → Prop} {b : Batch} {p q r : Plan} {es fs : List Effect} {m : Mutation} {e : Effect}
  {user : String}

/-- A batch of a user begins with a valid plan. -/
theorem Fit.origin (h : b.Fit user) : (origin b.snapshot).Valid := by
  obtain ⟨p, hp, hs⟩ := h.taken
  exact (reordered_origin hs).symm.valid hp.valid

/-- A new batch logs nothing. -/
theorem logs_new {snapshot : Snapshot} (hs : p.snapshot = .ok snapshot) (serial epoch : Nat) :
    Logs P { serial, snapshot, epoch } p [] (Sync.origin snapshot) where
  replays := .done _
  leads := reordered_origin hs
  semesters _ := rfl
  deleted _ := rfl

/-- A mutation that is made on the plan is logged. -/
theorem Logs.push (h : b.Logs P p es q) (hP : Orderless P) (hb : b.Fit user) {p' : Plan}
    (made : m.apply p = .ok (e, p')) (does : e.isEmpty = false) (good : P p') : (b.push m e).Tells P p' := by
  have hq : q.Valid := h.replays.valid hb.origin
  obtain ⟨q', made', hpq⟩ := reordered_apply h.leads.symm (h.leads.valid hq) made
  refine ⟨by simp [Batch.push], es ++ [e], q', h.replays.append (.one made' does (hP _ _ hpq good)),
    hpq.symm, ?_, ?_⟩
  · intro v
    simp [Batch.push, Json.isIn_append, h.semesters]
  · intro v
    simp [Batch.push, Json.isIn_append, h.deleted]

/-- A batch that was overtaken stands in front of the one that waits: that one began with the plan to
which the first has led. -/
theorem Tells.prepend {earlier : Batch} (h : b.Tells P p) (hP : Orderless P) (hb : b.Fit user) (k : earlier.Tells P r)
    (hs : b.snapshot.semesters = sorted r.semesters) : (b.prepend earlier).Tells P p := by
  obtain ⟨-, es, q, hlog⟩ := h
  obtain ⟨hne, fs, q₀, klog⟩ := k
  have meet : Reordered (Sync.origin b.snapshot) q₀ := by
    refine Reordered.trans ?_ klog.leads.symm
    simp [Reordered, Sync.origin, hs]
  obtain ⟨q', replays, hqq⟩ := hlog.replays.reorder hP hb.origin meet
  refine ⟨by simp [Batch.prepend, hne], fs ++ es, q', klog.replays.append replays,
    hqq.symm.trans hlog.leads, ?_, ?_⟩
  · intro v
    simp [Batch.prepend, Json.isIn_append, hlog.semesters, klog.semesters, Bool.or_comm]
  · intro v
    simp [Batch.prepend, Json.isIn_append, hlog.deleted, klog.deleted, Bool.or_comm]

/-- A batch that is queued again alone logs what it did. -/
theorem Tells.prepend_new (h : b.Tells P p) (serial epoch : Nat) (state : SyncState) :
    (({ serial, snapshot := b.snapshot, epoch, state } : Batch).prepend b).Tells P p := by
  obtain ⟨hne, es, q, hlog⟩ := h
  refine ⟨by simpa [Batch.prepend] using hne, es, q, ?_, hlog.leads, fun v => ?_, fun v => ?_⟩
  · simpa [Batch.prepend] using hlog.replays
  · simp [Batch.prepend, hlog.semesters]
  · simp [Batch.prepend, hlog.deleted]

theorem Tells.reorder {p' : Plan} (h : b.Tells P p) (hp : Reordered p p') : b.Tells P p' :=
  have ⟨hne, es, q, hlog⟩ := h
  ⟨hne, es, q, { hlog with leads := hlog.leads.trans hp }⟩

end Batch

/-! ## Sessions -/

/-- Every plan that the step makes by a mutation has the property. -/
def Act.Makes (P : Plan → Prop) (w : World) : Act → Prop
  | .mutate m => P ((Coordinator.apply m).run w.coordinator).2.plan
  | .retry failure => ∀ ms ∈ failure.mutations.inits,
    P ((Coordinator.retry { failure with mutations := ms }).run w.coordinator).2.plan
  | _ => True

instance (P : Plan → Prop) [DecidablePred P] (w : World) : (a : Act) → Decidable (a.Makes P w)
  | .mutate m => inferInstanceAs (Decidable (P ((Coordinator.apply m).run w.coordinator).2.plan))
  | .retry failure => inferInstanceAs (Decidable (∀ ms ∈ failure.mutations.inits,
      P ((Coordinator.retry { failure with mutations := ms }).run w.coordinator).2.plan))
  | .flush | .expire | .reply .. | .finish _ | .close | .listen _ | .unlisten _ => instDecidableTrue

/-- What may happen in a session in which no write begins before the last one ended, and no course is
moved within its semester during a write. -/
def World.Steady (w : World) : Event → Prop
  | .act a => a.Allowed w ∧ (w.flights.isEmpty ∨ a.idles = false)
  | .late _ => True
  | .identity .. => False

instance (w : World) : DecidablePred w.Steady
  | .act a => inferInstanceAs (Decidable (a.Allowed w ∧ (w.flights.isEmpty ∨ a.idles = false)))
  | .late _ => instDecidableTrue
  | .identity .. => instDecidableFalse

/-- The same in a session in which every mutation makes a plan with the property. -/
def World.SteadyIn (P : Plan → Prop) (w : World) (e : Event) : Prop :=
  w.Steady e ∧ match e with
    | .act a => a.Makes P w
    | _ => True

instance (P : Plan → Prop) [DecidablePred P] (w : World) : DecidablePred (w.SteadyIn P)
  | .act a => inferInstanceAs (Decidable (w.Steady (.act a) ∧ a.Makes P w))
  | .late a => inferInstanceAs (Decidable (w.Steady (.late a) ∧ True))
  | .identity event remote => inferInstanceAs (Decidable (w.Steady (.identity event remote) ∧ True))

namespace Coordinator

variable {P : Plan → Prop} {Q : Coordinator → Prop}

/-- Applying mutations in turn goes on after the first one, which is made or refused, or ends there. -/
theorem applyAll_cons (m : Mutation) (c : Coordinator) :
    ((∀ f, ((apply m).run c).1 = .error f → f.isRefusal = true) ∧ ∃ refused : List Fault, ∀ ms,
      (applyAll (m :: ms)).run c = ((refused ++ ·) <$> ((applyAll ms).run ((apply m).run c).2).1,
        ((applyAll ms).run ((apply m).run c).2).2)) ∨
    ∃ f, ((apply m).run c).1 = .error f ∧ ∀ ms, (applyAll (m :: ms)).run c = (.error f, ((apply m).run c).2) := by
  simp only [applyAll, run_bind, run_tryCatch]
  rcases (apply m).run c with ⟨f | u, d⟩
  · by_cases hf : f.isRefusal = true
    · refine .inl ⟨fun g hg => by cases hg; exact hf, [f], fun ms => ?_⟩
      simp only [hf, ↓reduceIte, run_pure]
      rcases (applyAll ms).run d with ⟨g | fs, d'⟩ <;> rfl
    · refine .inr ⟨f, rfl, fun ms => ?_⟩
      simp only [hf]
      rfl
  · refine .inl ⟨nofun, [], fun ms => ?_⟩
    simp only [run_pure]
    rcases (applyAll ms).run d with ⟨g | fs, d'⟩ <;> rfl

/-- What every mutation keeps that makes a plan with the property, all mutations keep if all plans that
they make have it. -/
theorem applyAll_makes {ms : List Mutation}
    (step : ∀ c, ∀ m ∈ ms, Q c → P ((apply m).run c).2.plan → Q ((apply m).run c).2)
    (c : Coordinator) (h : Q c) (makes : ∀ ns ∈ ms.inits, P ((applyAll ns).run c).2.plan) :
    Q ((applyAll ms).run c).2 := by
  induction ms generalizing c with
  | nil => exact h
  | cons m ms ih =>
    have longer : ∀ ns ∈ ms.inits, P ((applyAll (m :: ns)).run c).2.plan := by
      intro ns hns
      rw [List.mem_inits] at hns
      exact makes _ ((List.mem_inits _ _).2 ((List.prefix_cons_inj m).2 hns))
    rcases applyAll_cons m c with ⟨-, refused, goes⟩ | ⟨f, -, stops⟩
    · have hgo (ms : List Mutation) :
          ((applyAll (m :: ms)).run c).2 = ((applyAll ms).run ((apply m).run c).2).2 := by rw [goes]
      have first : P ((apply m).run c).2.plan := hgo [] ▸ longer [] ((List.mem_inits _ _).2 (List.nil_prefix))
      rw [hgo ms]
      refine ih (fun c n hn => step c n (List.mem_cons_of_mem m hn)) _ (step c m (List.mem_cons_self ..) h first) ?_
      exact fun ns hns => hgo ns ▸ longer ns hns
    · have hstop (ms : List Mutation) : ((applyAll (m :: ms)).run c).2 = ((apply m).run c).2 := by rw [stops]
      rw [hstop ms]
      exact step c m (List.mem_cons_self ..) h (hstop [] ▸ longer [] ((List.mem_inits _ _).2 (List.nil_prefix)))

theorem retry_makes {failure : SyncFailure}
    (step : ∀ c, ∀ m ∈ failure.mutations, Q c → P ((apply m).run c).2.plan → Q ((apply m).run c).2)
    (c : Coordinator) (h : Q c)
    (makes : ∀ ms ∈ failure.mutations.inits, P ((retry { failure with mutations := ms }).run c).2.plan) :
    Q ((retry failure).run c).2 := by
  simp only [retry, run_bind, run_get] at makes ⊢
  by_cases ho : failure.user = c.owner
  · simp only [ho, bne_self_eq_false, Bool.false_eq_true, ↓reduceIte] at makes ⊢
    exact applyAll_makes step c h makes
  · have other : (failure.user != c.owner) = true := by simpa using ho
    simpa only [other, ↓reduceIte, run_bind, run_throw] using h

end Coordinator

namespace Chronicle

/-- A session in which the waiting batch and the batch that is written tell how their plans came about. -/
structure Told (P : Plan → Prop) (user : String) (first : Nat) (c : Chronicle) : Prop where
  kept : c.Kept user first
  idled : c.idled = false
  waiting : ∀ b ∈ c.world.coordinator.queued, b.Tells P c.world.coordinator.plan
  writing : ∀ f ∈ c.world.flights, f.batch.Tells P f.plan

variable {P : Plan → Prop} {user : String} {first : Nat} {c : Chronicle}

open Coordinator

theorem Told.rest (h : c.Told P user first) {d : Chronicle} (hk : d.Kept user first) (hi : d.idled = false)
    (hf : d.world.flights = c.world.flights) (hp : d.world.coordinator.plan = c.world.coordinator.plan)
    (hq : d.world.coordinator.queued = c.world.coordinator.queued) : d.Told P user first where
  kept := hk
  idled := hi
  waiting := by rw [hp, hq]; exact h.waiting
  writing := by rw [hf]; exact h.writing

theorem Told.still (h : c.Told P user first) (a : Act) (ha : a.Still) :
    Told P user first { c with world := (c.world.act a).1 } :=
  have ⟨_, _, hf, _, hp, hq⟩ := h.kept.orderly.still_frame ha
  h.rest (h.kept.still a ha) h.idled hf hp hq

theorem Told.apply (h : c.Told P user first) (hP : Orderless P) {m : Mutation} (hm : m.Plain)
    (hi : c.world.flights ≠ [] → ¬ m.Idle) (good : P ((Coordinator.apply m).run c.world.coordinator).2.plan) :
    Told P user first { c with
        world := { c.world with coordinator := ((Coordinator.apply m).run c.world.coordinator).2 } } := by
  have hk := h.kept.apply hm fun _ => hi
  obtain ⟨-, -, ⟨hp, hq⟩ | ⟨snapshot, e, b, hs, made, does, hq, hb⟩⟩ := c.world.coordinator.apply_made m
  · exact h.rest hk h.idled rfl hp hq
  · refine ⟨hk, h.idled, fun b' hb' => ?_, h.writing⟩
    cases hq.symm.trans hb'
    rcases hb with hb | ⟨-, rfl⟩
    · obtain ⟨-, es, q, hlog⟩ := h.waiting b hb
      exact hlog.push hP (h.kept.orderly.queued b hb).1 made does good
    · have hfit : Batch.Fit user _ :=
        .new h.kept.orderly.plan hs c.world.coordinator.fresh c.world.coordinator.epoch .applying
      exact (Batch.logs_new hs _ _).push hP hfit made does good

theorem Told.launch (h : c.Told P user first)
    (hl : c.world.coordinator.queued.isSome → c.world.flights = [] ∧ Averaged c.world.coordinator.plan) :
    Told P user first { c with world := c.world.launch.1 } := by
  have hk := h.kept.launch hl
  rcases h.kept.orderly.launch_cases hl with ⟨hq, hr⟩ | ⟨b, ps, gone, hq, -, -, -, -, f, hf, hr⟩
  · rw [hr] at hk ⊢
    exact h.rest hk h.idled rfl (stopTimer_plan _) (stopTimer_queued _)
  · rw [hr] at hk ⊢
    refine ⟨hk, h.idled, fun b' hb' => ?_, fun g hg => ?_⟩
    · cases hb'
    · have hb : f.batch = c.world.coordinator.closed b := by rw [hf, Flight.start_batch]
      have hp : f.plan = c.world.coordinator.plan := by rw [hf, Flight.start_plan]
      rw [List.mem_singleton.1 hg, hb, hp]
      obtain ⟨hne, es, q, hlog⟩ := h.waiting b hq
      exact ⟨hne, es, q, hlog.replays, hlog.leads, hlog.semesters, hlog.deleted⟩

theorem Told.reply (h : c.Told P user first) (i : Nat) (r : Reply) :
    Told P user first { c with world := { c.world with flights := (World.answered c.world.flights i r).1 } } where
  kept := h.kept.reply i r
  idled := h.idled
  waiting := h.waiting
  writing f hf := by
    obtain ⟨g, hg, hb, hp, -⟩ := World.mem_answered hf
    rw [hb, hp]
    exact h.writing g hg

/-- While nothing was moved within its semester, nothing waits when a write is taken back. -/
theorem Told.alone (h : c.Told P user first) {f : Flight} (hf : f ∈ c.world.flights)
    (hv : f.plan.version = c.world.coordinator.plan.version) : c.world.coordinator.queued = none := by
  by_contra hn
  have hnewer := (h.kept.writing f hf).newer h.idled (Option.isSome_iff_ne_none.2 hn)
  omega

theorem ended_world (c : Chronicle) (w : World) (p : Plan) (o : Option SyncState) : (c.ended w p o).world = w := by
  unfold ended; split <;> rfl

theorem ended_idled (c : Chronicle) (w : World) (p : Plan) (o : Option SyncState) :
    (c.ended w p o).idled = c.idled := by
  unfold ended; split <;> rfl

theorem Told.finish (h : c.Told P user first) (hP : Orderless P) {f : Flight} (hf : c.world.flights = [f]) :
    let r := (finishFlush f.batch f.cause).run c.world.coordinator
    Told P user first
      (c.ended { c.world with coordinator := r.2, flights := [] } f.plan (Report.ofFlushed r.1).ended) := by
  have hm : f ∈ c.world.flights := by simp [hf]
  have hk := h.kept.finish hf
  have hw := h.kept.writing f hm
  obtain ⟨-, hcases⟩ := h.kept.orderly.finish_cases hf
  have htells := h.writing f hm
  generalize (finishFlush f.batch f.cause).run c.world.coordinator = r at hk hcases ⊢
  dsimp only
  refine ⟨hk, (ended_idled ..).trans h.idled, fun b hb => ?_, fun g hg => ?_⟩
  · rw [ended_world] at hb ⊢
    dsimp only at hb ⊢
    rcases hcases with ⟨-, -, hp, hq⟩ | ⟨-, -, -, hp, b₀, hq, hb₀⟩ | ⟨-, hv, -, hq, -⟩
    · rw [hp]
      exact h.waiting b (hq ▸ hb)
    · -- put off: the log of what waits goes on where the log of the write ended
      cases hq.symm.trans hb
      rw [hp]
      rcases hb₀ with hb₀ | ⟨hn, rfl⟩
      · exact (h.waiting b₀ hb₀).prepend hP (h.kept.orderly.queued b₀ hb₀).1 htells (hw.waiting b₀ hb₀)
      · exact (htells.reorder (.of_eq (hw.same hn).symm)).prepend_new _ _ _
    · cases (hq.trans (h.alone hm hv)).symm.trans hb
  · rw [ended_world] at hg
    cases hg

theorem step_world (c : Chronicle) (e : Event) : (c.step e).world = (c.world.step e).1 := by
  unfold Chronicle.step
  split
  · split
    · rfl
    · exact ended_world ..
  · rfl
  · rfl

/-- Every step of a session that keeps to the rules keeps the logs. -/
theorem Told.step (h : c.Told P user first) (hP : Orderless P) {e : Event} (he : c.world.SteadyIn P e) :
    (c.step e).Told P user first := by
  obtain ⟨hs, makes⟩ := he
  cases e with
  | identity => exact hs.elim
  | late a =>
    obtain ⟨ho, -, hf, hp, hq⟩ := h.kept.orderly.late_frame a
    exact h.rest (h.kept.rest ho hf hp hq) h.idled hf hp hq
  | act a =>
    obtain ⟨ha, hi⟩ := hs
    rw [List.isEmpty_iff] at hi
    have idle : c.world.flights ≠ [] → a.idles = false := fun hf => hi.resolve_left hf
    have hidled : (c.idled || (!c.world.flights.isEmpty && a.idles)) = c.idled := by
      rcases hi with hf | hi
      · simp [hf]
      · simp [hi]
    have plain :
        ∀ w : World, ({ c with world := w, idled := c.idled || (!c.world.flights.isEmpty && a.idles) } : Chronicle) =
        { c with world := w } := fun w => by rw [hidled]
    cases a with
    | mutate m =>
      simp only [Chronicle.step, plain]
      exact h.apply hP ha (fun hf hm => by simpa [Act.idles, hm] using idle hf) makes
    | retry failure =>
      simp only [Chronicle.step, plain]
      refine (retry_makes (P := P) (Q := fun d =>
        Told P user first { c with world := { c.world with coordinator := d } }) (fun d m hm hd good => ?_) _ h makes)
      refine hd.apply hP (ha m hm) (fun hf hidle => ?_) good
      have := idle hf
      simp only [Act.idles, List.any_eq_false, decide_eq_true_eq] at this
      exact this m hm hidle
    | flush =>
      simp only [Chronicle.step, plain]
      exact h.launch ha
    | expire =>
      simp only [Chronicle.step, plain, World.step]
      obtain ⟨timers, -, he⟩ | he := c.world.expire_cases <;> rw [he]
      · exact (h.rest (h.kept.rest (h.kept.orderly.timers timers) rfl rfl rfl) h.idled rfl rfl rfl).launch ha
      · exact h
    | reply i r =>
      simp only [Chronicle.step, plain]
      exact h.reply i r
    | finish i =>
      cases hr : World.ready? c.world.flights i with
      | none => simpa only [Chronicle.step, World.step, World.act, hr] using h
      | some f =>
        obtain ⟨hf, rfl, -⟩ := h.kept.orderly.ready hr
        simp only [Chronicle.step, World.step, World.act, hr]
        simpa only [hf, List.eraseIdx_cons_zero] using h.finish hP hf
    | close =>
      simp only [Chronicle.step, plain]
      exact h.still .close trivial
    | listen fault =>
      simp only [Chronicle.step, plain]
      exact h.still (.listen fault) trivial
    | unlisten i =>
      simp only [Chronicle.step, plain]
      exact h.still (.unlisten i) trivial

/-- A session that begins with a plan that can be written down has nothing to tell. -/
theorem told_start {w : World} (hw : World.Reachable w) {event : IdentityEvent} {remote : Remote}
    (hu : event.user = some user) (ho : w.coordinator.owner ≠ some user)
    (began : (w.identify event remote).1.coordinator.owner = some user) {document : Json}
    (exported : (w.identify event remote).1.coordinator.plan.toJson = .ok document) :
    (start (w.identify event remote).1).Told P user w.coordinator.fresh := by
  obtain ⟨hd, ha⟩ := dated_of_toJson exported
  have horderly := World.orderly_identify hw.counted hu ho began hd
  obtain ⟨backend, plan, cache, log, state, -, he⟩ := w.identify_frame hu ho began
  have hq : (w.identify event remote).1.coordinator.queued = none := by simp [he, Coordinator.ended]
  have hf : (w.identify event remote).1.flights = [] := by simp [he]
  refine ⟨kept_start horderly hq hf ha, rfl, fun b hb => ?_, fun f hm => ?_⟩
  · cases hq.symm.trans hb
  · have : f ∈ (w.identify event remote).1.flights := hm
    rw [hf] at this; cases this

/-- When a write of the session is taken back, the failure that is told holds its mutations, nothing
waited and nothing waits, and the plan lists the snapshot of its batch again. -/
theorem Told.rolledBack (h : c.Told P user first) {i : Nat} {f : Flight} (hf : World.ready? c.world.flights i = some f)
    (ended : (c.world.act (.finish i)).2.ended = some .rolledBack) :
    let d := (c.world.act (.finish i)).1.coordinator
    (∃ failure faults, (c.world.act (.finish i)).2.told = some (failure, faults) ∧
      failure.user = c.world.coordinator.owner ∧
        failure.mutations = f.batch.mutations) ∧
      c.world.coordinator.queued = none ∧ d.queued = none ∧ Fit user d.plan ∧
      d.plan.semesters = f.batch.snapshot.semesters ∧ f.batch.Tells P c.world.coordinator.plan := by
  obtain ⟨hflights, rfl, -⟩ := h.kept.orderly.ready hf
  have hm : f ∈ c.world.flights := by simp [hflights]
  have hw := h.kept.orderly.flights f hm
  have hnotice (x : Flushed) (hx : ((finishFlush f.batch f.cause).run c.world.coordinator).1 = .ok x) :=
    Coordinator.finishFlush_notice c.world.coordinator hx
  obtain ⟨-, hcases⟩ := h.kept.orderly.finish_cases hflights
  simp only [World.act, hf] at ended ⊢
  generalize (finishFlush f.batch f.cause).run c.world.coordinator = r at ended hcases hnotice ⊢
  rcases hcases with ⟨-, hr, -⟩ | ⟨-, -, hr, -⟩ | ⟨-, hv, hp, hq, hx, -⟩
  · rw [hr] at ended; cases ended
  · rw [hr] at ended; cases ended
  · have alone := h.alone hm hv
    have restored := (hw.batch.restore h.kept.orderly.plan).2.1
    rcases hr : r.1 with fault | x
    · rw [hr] at ended; cases ended
    · obtain ⟨failure, hn, hu, hms⟩ := hnotice x hr hw.epoch (hx x hr)
      refine ⟨⟨failure, c.world.coordinator.listeners.map (·.fault), ?_, hu, hms⟩, alone,
        hq.trans alone, hp ▸ restored, by rw [hp]; rfl, ?_⟩
      · simp [Report.ofFlushed, Flushed.told, hn]
      · -- nothing waits, so the plan is still the one that was written
        exact (h.writing f hm).reorder (.of_eq ((h.kept.writing f hm).same alone).symm)

end Chronicle
end DegreePlan.Sync
