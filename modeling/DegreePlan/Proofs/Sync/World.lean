import DegreePlan.Sync.Coordinator

/-!
# The coordinator among its writes

A coordinator together with the writes that are under way. Between the beginning and the end of a
write anything may happen: other operations, answers of the backend to other writes, and events that
change the identity. A write that was begun before the last change of identity is late.
-/

namespace DegreePlan.Sync

/-- A flush that has begun and has not ended. -/
structure Flight where
  batch : Batch
  /-- The plan that is written. -/
  plan : Plan
  backend : Option String
  /-- The calls that were not answered yet. -/
  left : List Call
  cause : Option String := none

namespace Flight

/-- Begins a write. -/
def start (plan : Plan) (batch : Batch) (w : Write) : Flight :=
  match w.backend with
  | none =>
    { batch, plan, backend := none, left := [], cause := some "No persistence backend for this session" }
  | some user => { batch, plan, backend := some user, left := w.calls }

/-- Takes an answer; the first failure ends the write. -/
def answer (f : Flight) (r : Reply) : Flight :=
  match f.left with
  | [] => f
  | call :: rest =>
    match call.failure r with
    | some cause => { f with left := [], cause := some cause }
    | none => { f with left := rest }

/-- The call that waits for its answer. -/
def call? (f : Flight) : Option (String × Call) :=
  match f.backend, f.left with
  | some user, call :: _ => some (user, call)
  | _, _ => none

@[simp] theorem start_batch (p : Plan) (b : Batch) (w : Write) : (start p b w).batch = b := by
  unfold start; split <;> rfl

@[simp] theorem start_plan (p : Plan) (b : Batch) (w : Write) : (start p b w).plan = p := by unfold start; split <;> rfl

@[simp] theorem start_backend (p : Plan) (b : Batch) (w : Write) : (start p b w).backend = w.backend := by
  unfold start; split <;> simp_all

theorem start_left (p : Plan) (b : Batch) {w : Write} {user : String} (h : w.backend = some user) :
    (start p b w).left = w.calls := by
  simp [start, h]

theorem answer_cases (f : Flight) (r : Reply) : ∃ left cause, f.answer r = { f with left, cause } := by
  unfold answer
  split
  · exact ⟨f.left, f.cause, rfl⟩
  · split
    · exact ⟨_, _, rfl⟩
    · exact ⟨_, f.cause, rfl⟩

theorem answer_cons {f : Flight} {call : Call} {rest : List Call} (hl : f.left = call :: rest) (r : Reply) :
    (r = .accepted ∧ f.answer r = { f with left := rest }) ∨
      (r ≠ .accepted ∧ ∃ cause, f.answer r = { f with left := [], cause := some cause }) := by
  unfold answer
  rw [hl]
  cases r <;> cases call <;> simp [Call.failure]

@[simp] theorem answer_batch (f : Flight) (r : Reply) : (f.answer r).batch = f.batch := by
  obtain ⟨_, _, h⟩ := f.answer_cases r; rw [h]

@[simp] theorem answer_plan (f : Flight) (r : Reply) : (f.answer r).plan = f.plan := by
  obtain ⟨_, _, h⟩ := f.answer_cases r; rw [h]

@[simp] theorem answer_backend (f : Flight) (r : Reply) : (f.answer r).backend = f.backend := by
  obtain ⟨_, _, h⟩ := f.answer_cases r; rw [h]

theorem answer_left_lt {f : Flight} {sent : String × Call} (h : f.call? = some sent) (r : Reply) :
    (f.answer r).left.length < f.left.length := by
  unfold call? at h
  split at h
  · next hl =>
    rcases answer_cons hl r with ⟨-, ha⟩ | ⟨-, cause, ha⟩ <;> rw [ha, hl] <;> simp
  · cases h

/-! ## Flushes -/

section

variable {m : Type → Type} [Monad m]

/-- Sends the calls of a write in turn and takes the answers. -/
def drive (send : String → Call → m Reply) (f : Flight) : m Flight :=
  match _h : f.call? with
  | none => pure f
  | some (user, call) => do
    let r ← send user call
    drive send (f.answer r)
termination_by f.left.length
decreasing_by exact answer_left_lt _h r

variable {send : String → Call → m Reply} {f : Flight} {user : String}

theorem drive_none (h : f.call? = none) : f.drive send = pure f := by
  rw [drive]; split <;> simp_all

theorem drive_some {call : Call} (h : f.call? = some (user, call)) :
    f.drive send = send user call >>= fun r => (f.answer r).drive send := by
  rw [drive]; split <;> simp_all

theorem drive_eq [LawfulMonad m] (hb : f.backend = some user) (hc : f.cause = none) :
    f.drive send = (fun cause => { f with left := [], cause }) <$> Write.sendAll (send user) f.left := by
  generalize hl : f.left = calls
  induction calls generalizing f with
  | nil =>
    have same : { f with left := [], cause := none } = f := by rw [← hl, ← hc]
    rw [drive_none (by simp [call?, hb, hl]), Write.sendAll, map_pure, same]
  | cons call rest ih =>
    rw [drive_some (by simp [call?, hb, hl]; exact ⟨rfl, rfl⟩), Write.sendAll, map_bind]
    refine bind_congr fun r => ?_
    rcases hf : call.failure r with - | cause
    · have ha : f.answer r = { f with left := rest } := by simp [answer, hl, hf]
      rw [ha]
      exact ih hb hc rfl
    · have ha : f.answer r = { f with left := [], cause := some cause } := by simp [answer, hl, hf]
      rw [ha, drive_none (by simp [call?]), map_pure]

/-- Driving a write that has begun gives the outcome of the write. -/
theorem drive_start [LawfulMonad m] (send : String → Call → m Reply) (p : Plan) (b : Batch) (w : Write) :
    (start p b w).drive send = (fun cause => { start p b w with left := [], cause }) <$> w.run send := by
  cases hb : w.backend with
  | none =>
    rw [drive_none (by simp [call?, hb]), Write.run, hb, map_pure]
    simp [start, hb]
  | some user =>
    have backend : (start p b w).backend = some user := by rw [start_backend, hb]
    rw [drive_eq backend (by simp [start, hb]), start_left p b hb, Write.run, hb]

end

end Flight

/-- A flush is the beginning of a write, its calls and their answers in turn, and its end, whatever happens to
the coordinator between a call and its answer. -/
theorem Coordinator.flush_eq_drive {m : Type → Type} [Monad m] [LawfulMonad m]
    (send : String → Call → StateT Coordinator m Reply) (c : Coordinator) :
    flush (fun w => w.run send) c =
      match beginFlush.run c with
      | (.error f, c) => pure (.error f, c)
      | (.ok none, c) => pure (.ok none, c)
      | (.ok (some (b, write)), c) => (Flight.start c.plan b write).drive send c >>= fun (f, c) =>
        let (r, c) := (finishFlush f.batch f.cause).run c
        pure (r.map some, c) := by
  unfold flush
  rcases beginFlush.run c with ⟨f | (_ | ⟨b, write⟩), d⟩
  · rfl
  · rfl
  · simp only [Flight.drive_start]
    change _ = (StateT.run (_ <$> write.run send) d) >>= _
    rw [StateT.run_map, bind_map_left]
    simp only [Flight.start_batch]
    rfl

/-- The failure that a flush ended with and those who are told of it, each by the fault that it raises. -/
def Coordinator.Flushed.told (r : Coordinator.Flushed) : Option (SyncFailure × List (Option String)) :=
  r.notice.map fun n => (n.1, n.2.map (·.fault))

/-- What others see of a step: the call that the backend gets, how a flush ended, who was told of which
failure, and what was raised. -/
structure Report where
  call : Option (String × Call) := none
  ended : Option SyncState := none
  told : Option (SyncFailure × List (Option String)) := none
  fault : Option Fault := none

namespace Report

/-- The report of an operation that shows no more than what it raises. -/
def ofResult {α : Type} : Except Fault α → Report
  | .ok _ => {}
  | .error f => { fault := some f }

/-- The report of the end of a flush. -/
def ofFlushed : Except Fault Coordinator.Flushed → Report
  | .ok r => { ended := some r.state, told := r.told }
  | .error f => { fault := some f }

end Report

/-- A coordinator with the writes of its session and those of earlier sessions. -/
structure World where
  coordinator : Coordinator
  flights : List Flight := []
  late : List Flight := []

/-- A step of a session: an operation of the coordinator, or an answer of the backend. Writes are named
by their place among those of the session. -/
inductive Act where
  | mutate (m : Mutation)
  | retry (failure : SyncFailure)
  | flush
  | expire
  | reply (i : Nat) (r : Reply)
  | finish (i : Nat)
  | close
  | listen (fault : Option String)
  | unlisten (i : Nat)

/-- A step of a write of an earlier session. -/
inductive LateAct where
  | reply (i : Nat) (r : Reply)
  | finish (i : Nat)

/-- Anything that may happen next. -/
inductive Event where
  | act (a : Act)
  | late (a : LateAct)
  | identity (event : IdentityEvent) (remote : Remote)

namespace World

/-- Does an operation of the coordinator. -/
def operate {α : Type} (w : World) (x : Action α) : World × Report :=
  ({ w with coordinator := (x.run w.coordinator).2 }, .ofResult (x.run w.coordinator).1)

/-- Begins a flush. -/
def launch (w : World) : World × Report :=
  match Coordinator.beginFlush.run w.coordinator with
  | (.ok (some (b, write)), c) =>
    let f := Flight.start c.plan b write
    ({ w with coordinator := c, flights := w.flights ++ [f] }, { call := f.call? })
  | (.ok none, c) => ({ w with coordinator := c }, {})
  | (.error f, c) => ({ w with coordinator := c }, { fault := some f })

/-- Answers a write. -/
def answered (fs : List Flight) (i : Nat) (r : Reply) : List Flight × Report :=
  match fs[i]? with
  | none => (fs, {})
  | some f => (fs.set i (f.answer r), { call := (f.answer r).call? })

/-- The write that can end now. -/
def ready? (fs : List Flight) (i : Nat) : Option Flight := fs[i]?.filter (·.left.isEmpty)

/-- A step of the session. -/
def act (w : World) : Act → World × Report
  | .mutate m => w.operate (Coordinator.apply m)
  | .retry failure => w.operate (Coordinator.retry failure)
  | .flush => w.launch
  | .expire =>
    match w.coordinator.expire with
    | (false, c) => ({ w with coordinator := c }, {})
    | (true, c) => { w with coordinator := c }.launch
  | .reply i r =>
    let a := answered w.flights i r
    ({ w with flights := a.1 }, a.2)
  | .finish i =>
    match ready? w.flights i with
    | none => (w, {})
    | some f =>
      let r := (Coordinator.finishFlush f.batch f.cause).run w.coordinator
      ({ w with coordinator := r.2, flights := w.flights.eraseIdx i }, .ofFlushed r.1)
  | .close => ({ w with coordinator := w.coordinator.close }, {})
  | .listen fault => ({ w with coordinator := (w.coordinator.listen fault).2 }, {})
  | .unlisten i =>
    match w.coordinator.listeners[i]? with
    | none => (w, {})
    | some l => ({ w with coordinator := w.coordinator.unlisten l.handle }, {})

/-- A step of a late write. -/
def lateAct (w : World) : LateAct → World × Report
  | .reply i r =>
    let a := answered w.late i r
    ({ w with late := a.1 }, a.2)
  | .finish i =>
    match ready? w.late i with
    | none => (w, {})
    | some f =>
      let r := (Coordinator.finishFlush f.batch f.cause).run w.coordinator
      ({ w with coordinator := r.2, late := w.late.eraseIdx i }, .ofFlushed r.1)

/-- Acts on an identity event. With a new epoch all writes under way become late. -/
def identify (w : World) (event : IdentityEvent) (remote : Remote) : World × Report :=
  let r := (Coordinator.handle event fun _ => remote).run w.coordinator
  if r.2.epoch = w.coordinator.epoch then ({ w with coordinator := r.2 }, .ofResult r.1)
  else ({ coordinator := r.2, flights := [], late := w.late ++ w.flights }, .ofResult r.1)

/-- Lets something happen. -/
def step (w : World) : Event → World × Report
  | .act a => w.act a
  | .late a => w.lateAct a
  | .identity event remote => w.identify event remote

/-- The worlds in which a coordinator may be. -/
inductive Reachable : World → Prop where
  | new (quiet : Float) (cache : Option Cache) : Reachable { coordinator := .new quiet cache }
  | step {w : World} (h : Reachable w) (e : Event) : Reachable (w.step e).1

end World
/-! ## Runs -/

section

variable {σ : Type} {allowed : σ → Event → Prop} {step : σ → Event → σ}

/-- What allowed events lead to. -/
inductive Runs (allowed : σ → Event → Prop) (step : σ → Event → σ) (first : σ) : σ → Prop where
  | start : Runs allowed step first first
  | next {s : σ} (h : Runs allowed step first s) (e : Event) (he : allowed s e) : Runs allowed step first (step s e)

/-- What every allowed event keeps, a run keeps. -/
theorem Runs.keeps {first s : σ} (h : Runs allowed step first s) {P : σ → Prop} (hfirst : P first)
    (hstep : ∀ s e, P s → allowed s e → P (step s e)) : P s := by
  induction h with
  | start => exact hfirst
  | next _ e he ih => exact hstep _ e ih he

/-- Every event is allowed in its turn. -/
def allAllowed (allowed : σ → Event → Prop) [∀ s e, Decidable (allowed s e)]
    (step : σ → Event → σ) (s : σ) : List Event → Bool
  | [] => true
  | e :: es => decide (allowed s e) && allAllowed allowed step (step s e) es

theorem Runs.all [∀ s e, Decidable (allowed s e)] {first s : σ} (h : Runs allowed step first s) (es : List Event)
    (he : allAllowed allowed step s es = true) : Runs allowed step first (es.foldl step s) := by
  induction es generalizing s with
  | nil => exact h
  | cons e es ih =>
    simp only [allAllowed, Bool.and_eq_true, decide_eq_true_eq] at he
    exact ih (h.next e he.1) he.2

end

end DegreePlan.Sync
