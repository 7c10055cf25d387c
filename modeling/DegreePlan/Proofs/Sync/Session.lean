import DegreePlan.Proofs.Sync.Operation

/-!
# How sessions end and begin

A session that ends leaves nothing behind. The next one reads what the backend holds for its user, or else
what is in the cache, and makes it the plan. What that comes to is a function of the answers of the backend
and of the cache.
-/

namespace DegreePlan.Sync

namespace Coordinator

variable (c : Coordinator)

/-! ## The end -/

/-- The coordinator without its session. -/
def ended : Coordinator :=
  { c.stopTimer with
    epoch := c.epoch + 1, queued := none, plan := { owner := none }, owner := none, backend := none
    lastFailure := none }

/-- The cache when the session of the owner has ended. -/
def cleared : Except Fault (Option Cache) :=
  match c.cache, c.owner with
  | some cache, some user => some <$> cache.clear user
  | cache, _ => .ok cache

/-- A session ends unless the file of its owner cannot be removed, and even then nobody is signed in. -/
theorem endSession_eq : ∃ log state, endSession.run c = match c.cleared with
    | .ok cache => (.ok (), { c.ended with cache, log, state })
    | .error f => (.error f, c.ended) := by
  have last : ∀ d : Coordinator, ∃ log state, (settle >>= fun _ => if c.owner.isSome then
      note "[SYNC] Session ended; discarded plan data for the previous identity." else pure () : Action Unit).run d =
        (.ok (), { d with log, state }) := by
    intro d
    rw [run_bind, run_settle]
    dsimp only
    split
    · exact ⟨_, _, rfl⟩
    · exact ⟨d.log, _, rfl⟩
  cases hc : c.cache with
  | none =>
    obtain ⟨log, state, hl⟩ := last c.ended
    simp only [endSession, run_bind, run_get, run_modify, stopTimer_cache, cleared, hc, ended] at hl ⊢
    exact ⟨log, state, hl⟩
  | some cache =>
    cases ho : c.owner with
    | none =>
      obtain ⟨log, state, hl⟩ := last c.ended
      simp only [endSession, run_bind, run_get, run_modify, stopTimer_cache, cleared, hc, ho, ended] at hl ⊢
      exact ⟨log, state, hl⟩
    | some user =>
      simp only [endSession, run_bind, run_get, run_modify, stopTimer_cache, cleared, hc, ho, run_mk]
      cases cache.clear user with
      | error f => exact ⟨c.log, c.state, by simp [ended, hc]⟩
      | ok cache =>
        obtain ⟨log, state, hl⟩ := last { c.ended with cache := some cache }
        rw [run_bind, ho] at hl
        exact ⟨log, state, hl⟩

theorem endSession_frame : ∃ r cache log state, endSession.run c = (r, { c.ended with cache, log, state }) := by
  obtain ⟨log, state, h⟩ := c.endSession_eq
  rw [h]
  split
  · exact ⟨_, _, log, state, rfl⟩
  · exact ⟨_, c.ended.cache, c.ended.log, c.ended.state, rfl⟩

/-! ## What is read -/

/-- What the cache holds for a user, null if there is nothing. A file without fields raises. -/
def cached (user : String) (cache : Option Cache) : Except Fault Json :=
  match cache with
  | none => .ok .null
  | some d => (·.getD .null) <$> (d.load user).result

/-- What the session of a user reads: what the backend holds, or else the cache. -/
def found (user : String) (remote : Remote) (cache : Option Cache) : Except Fault Json :=
  if remote.data.isBlank then cached user cache else .ok remote.data

/-- The cache after it was looked into for a user: an unreadable file is gone. -/
def visited (user : String) (remote : Remote) (cache : Option Cache) : Option Cache :=
  if remote.data.isBlank then cache.map fun d => (d.load user).cache else cache

/-- The plan that a user has of what was read. Unreadable data make an empty plan, but not all faults of a load
count as such. -/
def readPlan (user : String) (data : Json) : Except Fault Plan :=
  if data.isBlank then .ok { owner := some user }
  else match ({ owner := some user } : Plan).load data with
    | .ok plan => .ok plan
    | .error f => if f.isDataFault then .ok { owner := some user } else .error f

/-- The plan that the session of a user makes of what it reads. -/
def reading (user : String) (remote : Remote) (cache : Option Cache) : Except Fault Plan := do
  readPlan user (← found user remote cache)

variable {user : String} {remote : Remote} {cache : Option Cache} {data : Json} {p : Plan} {f : Fault}

theorem readPlan_load (h : data.isBlank = false) (load : ({ owner := some user } : Plan).load data = .ok p) :
    readPlan user data = .ok p := by
  simp [readPlan, h, load]

theorem readPlan_cases (h : readPlan user data = .ok p) :
    p = { owner := some user } ∨ ({ owner := some user } : Plan).load data = .ok p := by
  unfold readPlan at h
  split at h
  · cases h
    exact .inl rfl
  cases load : ({ owner := some user } : Plan).load data with
  | ok q =>
    simp only [load] at h
    exact .inr h
  | error f =>
    simp only [load] at h
    split at h <;> cases h
    exact .inl rfl

/-- The plans with which the session of a user may begin. -/
def Loaded (user : String) (plan : Plan) : Prop :=
  plan = { owner := some user } ∨ ∃ data, ({ owner := some user } : Plan).load data = .ok plan

theorem reading_loaded (h : reading user remote cache = .ok p) : Loaded user p := by
  obtain ⟨data, -, read⟩ := bind_eq_ok.1 h
  exact (readPlan_cases read).imp_right fun load => ⟨data, load⟩

/-! ## How it is read -/

theorem loadRemote_frame (remote : Remote) :
    ∃ log, (loadRemote remote).run c = (.ok remote.data, { c with log }) := by
  obtain ⟨connected, stored⟩ := remote
  rcases stored with _ | cause | data
  · exact ⟨c.log, rfl⟩
  · exact ⟨_, rfl⟩
  · exact ⟨c.log, rfl⟩

theorem loadCached_eq (user : String) : ∃ log, (loadCached user).run c =
    (cached user c.cache, { c with cache := c.cache.map fun d => (d.load user).cache, log }) := by
  obtain ⟨cache, quiet, listeners, epoch, owner, backend, plan, queued, inFlight, timer, timers, state, lastOutcome,
    lastFailure, fresh, log⟩ := c
  cases cache with
  | none => exact ⟨log, rfl⟩
  | some d =>
    simp only [loadCached, run_bind, run_get, run_modify, run_mk, cached]
    cases (d.load user).result with
    | error f => exact ⟨_, rfl⟩
    | ok found => exact ⟨_, rfl⟩

theorem loadPlan_eq (data : Json) (hc : c.plan = { owner := some user }) : ∃ log, (loadPlan user data).run c =
    match readPlan user data with
    | .ok p => (.ok (), { c with plan := p, log })
    | .error f => (.error f, { c with log }) := by
  unfold readPlan loadPlan
  split
  · exact ⟨c.log, by rw [← hc]; rfl⟩
  simp only [run_bind, run_get, hc]
  cases ({ owner := some user } : Plan).load data with
  | ok q => exact ⟨c.log, rfl⟩
  | error f =>
    dsimp only
    split
    · exact ⟨_, rfl⟩
    · exact ⟨c.log, by rw [← hc]; rfl⟩

/-- Makes stored data the plan, or what is in the cache if they say nothing. -/
def loadChosen (user : String) (data : Json) : Action Unit := do
  let data ← if data.isBlank then do
      let cached ← loadCached user
      pure (data.orElse cached)
    else pure data
  loadPlan user data
  saveCache

/-- What the session of a user begins with: stored data or the cache, and then the plan. -/
def loadSession (user : String) (remote : Remote) : Action Unit := do
  let data ← loadRemote remote
  loadChosen user data

/-- The plan that is read is saved. -/
theorem loadSession_eq (remote : Remote) (hc : c.plan = { owner := some user }) :
    ∃ log, (loadSession user remote).run c =
    match reading user remote c.cache with
    | .ok p => saveCache.run { c with plan := p, cache := visited user remote c.cache, log }
    | .error f => (.error f, { c with cache := visited user remote c.cache, log }) := by
  -- what is left when the data are there
  have last (cache : Option Cache) (log : List String) (data : Json) :
      ∃ log', (loadPlan user data >>= fun _ => saveCache).run
      { c with cache, log } = match readPlan user data with
        | .ok p => saveCache.run { c with plan := p, cache, log := log' }
        | .error f => (.error f, { c with cache, log := log' }) := by
    obtain ⟨log', hr⟩ := loadPlan_eq { c with cache, log } data hc
    rw [run_bind, hr]
    cases readPlan user data <;> exact ⟨log', rfl⟩
  obtain ⟨log, hr⟩ := loadRemote_frame c remote
  rw [loadSession, run_bind, hr]
  unfold reading found visited loadChosen
  dsimp only
  split
  · next nothing =>
    obtain ⟨log', hl⟩ := loadCached_eq { c with log } user
    simp only [run_bind, hl]
    cases cached user c.cache with
    | error f => exact ⟨log', rfl⟩
    | ok data =>
      have chosen : remote.data.orElse data = data := by simp [Json.orElse, nothing]
      simpa only [run_bind, run_pure, chosen, ok_bind] using last _ log' data
  · simpa only [run_bind, run_pure, ok_bind] using last c.cache log remote.data

/-! ## The beginning -/

theorem beginSession_eq (user : String) (remote : Remote) : beginSession user remote = (do
    modify fun c => { c with owner := some user, plan := { owner := some user } }
    ExceptT.mk (pure remote.connected)
    modify fun c => { c with backend := some user }
    loadSession user remote) := rfl

theorem beginSession_unconnected (user : String) (unconnected : remote.connected = .error f) :
    (beginSession user remote).run c = (.error f, { c with owner := some user, plan := { owner := some user } }) := by
  simp only [beginSession_eq, run_bind, run_modify, run_mk, unconnected]

/-- A session that has a backend begins with what is read. -/
theorem beginSession_connected (user : String) (connected : remote.connected = .ok ()) :
    ∃ log, (beginSession user remote).run c =
    match reading user remote c.cache with
    | .ok p => saveCache.run { c with
        owner := some user, backend := some user, plan := p, cache := visited user remote c.cache, log }
    | .error f => (.error f, { c with
        owner := some user, backend := some user, plan := { owner := some user }, cache := visited user remote c.cache
        log }) := by
  simp only [beginSession_eq, run_bind, run_modify, run_mk, connected]
  exact loadSession_eq _ remote rfl

theorem beginSession_frame (user : String) (remote : Remote) :
    ∃ r backend plan cache log, (beginSession user remote).run c =
      (r, { c with owner := some user, backend, plan, cache, log }) ∧ Loaded user plan := by
  cases connected : remote.connected with
  | error f => exact ⟨_, c.backend, _, c.cache, c.log, c.beginSession_unconnected user connected, .inl rfl⟩
  | ok u =>
    obtain ⟨log, hr⟩ := c.beginSession_connected user connected
    rw [hr]
    cases read : reading user remote c.cache with
    | error f => exact ⟨_, some user, _, _, log, rfl, .inl rfl⟩
    | ok p =>
      obtain ⟨r, cache, log, hs, -⟩ := saveCache_frame { c with
        owner := some user, backend := some user, plan := p, cache := visited user remote c.cache, log }
      exact ⟨r, some user, p, cache, log, hs, reading_loaded read⟩

/-- An event changes nothing, or ends the session, or begins the session of another user. -/
theorem handle_cases (event : IdentityEvent) (remote : String → Remote) :
    (∃ r, (handle event remote).run c = (r, c)) ∨
    (∃ r cache log state, (handle event remote).run c = (r, { c.ended with cache, log, state })) ∨
    ∃ user, event.user = some user ∧ c.owner ≠ some user ∧
      ∃ r backend plan cache log state, (handle event remote).run c =
        (r, { c.ended with owner := some user, backend, plan, cache, log, state }) ∧ Loaded user plan := by
  unfold handle
  split
  · obtain ⟨r, cache, log, state, h⟩ := endSession_frame c
    exact .inr (.inl ⟨r, cache, log, state, h⟩)
  split
  · exact .inl ⟨_, rfl⟩
  next user hu =>
  simp only [run_bind, run_get]
  split
  · next ho =>
    refine .inr ?_
    rw [run_bind]
    obtain ⟨r, cache, log, state, he⟩ := endSession_frame c
    rw [he]
    cases r with
    | error f => exact .inl ⟨_, cache, log, state, rfl⟩
    | ok u =>
      obtain ⟨r, backend, plan, cache, log, hb, hp⟩ :=
        beginSession_frame { c.ended with cache, log, state } user (remote user)
      exact .inr ⟨user, hu, by simpa using ho, r, backend, plan, cache, log, state, hb, hp⟩
  · exact .inl ⟨_, rfl⟩

end Coordinator
end DegreePlan.Sync
