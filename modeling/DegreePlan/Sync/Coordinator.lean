import DegreePlan.Cache
import DegreePlan.Plan.Document
import DegreePlan.Sync.Batch
import DegreePlan.Sync.Identity

/-!
# The coordinator

The coordinator owns the plan of the signed-in user. A mutation changes the plan at once; its write
to the backend waits for a quiet period, so that mutations that come close together share one write.
When a write fails, the plan goes back to the snapshot of its batch and the listeners are told,
unless newer changes were made meanwhile: then these are kept and the batch is written again with
them.

A change of identity discards the plan, the waiting batch and the cached plan of the previous user
before anything of the next user is loaded. The epoch counts these changes; a write that was begun
in an earlier epoch has no effect when it ends.

A flush is split at the write: `beginFlush` takes the batch out, `finishFlush` acts on the outcome,
and anything may happen between them.
-/

namespace DegreePlan.Sync

/-- A write that failed for good, with everything that was taken back. -/
structure SyncFailure where
  user : Option String
  mutations : List Mutation
  semesters : List Json
  cause : String

/-- The failure in one line. -/
def SyncFailure.text (f : SyncFailure) : String :=
  s!"Sync failed for semesters {(Json.arr f.semesters).shown}; " ++
    s!"rolled back {f.mutations.length} change(s): {f.cause}"

/-- Someone who is told of failures; it may fail itself. -/
structure Listener where
  handle : Nat
  fault : Option String := none

/-- A timer that has not run out. -/
structure Timer where
  handle : Nat
  delay : Float

/-- The state of the coordinator. -/
structure Coordinator where
  cache : Option Cache := none
  quiet : Float := 0.4
  listeners : List Listener := []
  epoch : Nat := 0
  owner : Option String := none
  /-- The user whose backend is connected. -/
  backend : Option String := none
  plan : Plan := { owner := none }
  /-- The batch that waits for its write. -/
  queued : Option Batch := none
  /-- The batches that are being written. -/
  inFlight : List Batch := []
  /-- The timer of the waiting batch. -/
  timer : Option Nat := none
  /-- All timers that have not run out, in the order of their creation. -/
  timers : List Timer := []
  state : SyncState := .idle
  lastOutcome : Option SyncState := none
  lastFailure : Option SyncFailure := none
  /-- Handles and serial numbers below this one are in use. -/
  fresh : Nat := 0
  /-- The lines that were logged. -/
  log : List String := []

/-- An operation of the coordinator. A fault ends it where it occurs; what was changed before
    stays. -/
abbrev Action := ExceptT Fault (StateM Coordinator)

/-- What the collaborators of a user offer at sign-in. -/
structure Remote where
  /-- Whether there is a backend at all. -/
  connected : Except Fault Unit := .ok ()
  /-- The stored semesters, if the backend can load them. -/
  stored : Option (Except String Json) := none

namespace Coordinator

/-- Something waits to be written or is being written. -/
def hasPending (c : Coordinator) : Bool := c.queued.isSome || !c.inFlight.isEmpty

/-- The state between operations. -/
def settled (c : Coordinator) : Coordinator :=
  { c with state := if c.hasPending then .pending else .idle }

/-- Logs a line. -/
def note (line : String) : Action Unit := modify fun c => { c with log := c.log ++ [line] }

/-- Ends an operation. -/
def settle : Action Unit := modify settled

/-- A coordinator with a quiet period, which cannot be negative. -/
def new (quiet : Float) (cache : Option Cache) : Coordinator :=
  { quiet := if 0.0 < quiet then quiet else 0.0, cache }

/-! ## Listeners and timers -/

/-- Adds a listener and gives its handle. -/
def listen (c : Coordinator) (fault : Option String := none) : Nat × Coordinator :=
  (c.fresh, { c with
    listeners := c.listeners ++ [{ handle := c.fresh, fault }], fresh := c.fresh + 1 })

/-- Removes a listener. -/
def unlisten (c : Coordinator) (handle : Nat) : Coordinator :=
  { c with listeners := c.listeners.filter (·.handle != handle) }

/-- Stops the timer. -/
def stopTimer (c : Coordinator) : Coordinator :=
  match c.timer with
  | none => c
  | some handle => { c with timer := none, timers := c.timers.filter (·.handle != handle) }

/-- Starts the quiet period anew. -/
def restartTimer (c : Coordinator) : Coordinator :=
  let c := c.stopTimer
  { c with
    timer := some c.fresh
    timers := c.timers ++ [{ handle := c.fresh, delay := c.quiet }]
    fresh := c.fresh + 1 }

/-- Lets the newest timer run out; tells whether there was one. -/
def expire (c : Coordinator) : Bool × Coordinator :=
  match c.timers.getLast? with
  | none => (false, c)
  | some _ => (true, { c with timers := c.timers.dropLast })

/-- Gives up the waiting write; the batch stays. -/
def close (c : Coordinator) : Coordinator := c.stopTimer

/-! ## Changing the plan -/

/-- Saves the plan in the cache. A directory that cannot be used is only warned of. -/
def saveCache : Action Unit := do
  let c ← get
  match c.cache, c.owner with
  | some cache, some owner =>
    let saved := cache.save owner (← liftExcept c.plan.filed)
    set { c with cache := some saved.cache }
    match saved.result with
    | .ok () => pure ()
    | .error f =>
      if f.isExternal then note s!"[WARN] Could not write plan cache: {f.message}" else throw f
  | _, _ => pure ()
where
  /-- Takes over a result. -/
  liftExcept {α : Type} (r : Except Fault α) : Action α := ExceptT.mk (pure r)

/-- Adds a mutation to the waiting batch, which begins at `snapshot` if there is none. -/
def enqueue (c : Coordinator) (snapshot : Snapshot) (m : Mutation) (e : Effect) : Coordinator :=
  match c.queued with
  | some b => { c with queued := some (b.push m e) }
  | none =>
    let b : Batch := { serial := c.fresh, snapshot, epoch := c.epoch }
    { c with queued := some (b.push m e), fresh := c.fresh + 1 }

/-- Changes the plan and schedules the write. A change that the plan refuses schedules nothing. -/
def apply (m : Mutation) : Action Unit := do
  let c ← get
  if c.owner.isNone then throw (.plan .notSignedIn)
  set { c with state := .applying }
  let snapshot ← ExceptT.mk (pure c.plan.snapshot)
  match m.apply c.plan with
  | .error f =>
    if f.isRefusal || f.isUnacceptable then settle
    throw f
  | .ok (effect, plan) =>
    modify fun c => { c with plan }
    if !effect.isEmpty then
      modify fun c => (c.enqueue snapshot m effect).restartTimer
      saveCache
    settle

/-! ## Writing -/

/-- The records of the batch's semesters as they are now. -/
def payloads (p : Plan) (b : Batch) : Except Fault (List Json) := do
  (← b.sortedSemesters).filterMapM fun id => do
    match p.semester? id with
    | some s => return some (← s.toJson)
    | none => return none

/-- The ids that are gone from the plan, each once. -/
def goneIds (p : Plan) (b : Batch) : Except Fault (List Json) := do
  let live := (← p.courses).map (·.id)
  live.forM Json.checkKey
  b.deleted.forM Json.checkKey
  return (Json.distinct b.deleted).filter fun id => !id.isIn live

/-- Takes the waiting batch out to be written, if there is one. -/
def beginFlush : Action (Option (Batch × Write)) := do
  modify stopTimer
  let c ← get
  match c.queued with
  | none => return none
  | some b =>
    let b := { b with closedAt := some c.plan.version }
    set { c with queued := none }
    let payloads ← ExceptT.mk (pure (payloads c.plan b))
    let deleted ← ExceptT.mk (pure (goneIds c.plan b))
    modify fun c => { c with inFlight := c.inFlight ++ [b], state := .pending }
    return some (b, { backend := c.backend, deleted, payloads })

/-- Removes the first batch that is `b` itself or has the same contents. -/
def dropBatch? (b : Batch) : List Batch → Option (List Batch)
  | [] => none
  | x :: rest =>
    if x.serial == b.serial || x.same b then some rest else (dropBatch? b rest).map (x :: ·)

/-- Notes the state of a batch where the batch is still listed. -/
def mark (c : Coordinator) (serial : Nat) (state : SyncState) : Coordinator :=
  { c with inFlight := c.inFlight.map fun b => if b.serial == serial then { b with state } else b }

/-- Puts a batch that could not be written in front of the waiting one. Its snapshot is older and
    stays the point to go back to. -/
def requeue (c : Coordinator) (b : Batch) : Coordinator :=
  let c := match c.queued with
    | some waiting => { c with queued := some (waiting.prepend b) }
    | none =>
      let waiting : Batch :=
        { serial := c.fresh, snapshot := b.snapshot, epoch := c.epoch, state := .pending }
      { c with queued := some (waiting.prepend b), fresh := c.fresh + 1 }
  c.restartTimer

/-- The end of a flush: the state of the batch, and the failure with those who are told of it. -/
structure Flushed where
  state : SyncState
  notice : Option (SyncFailure × List Listener) := none

/-- Takes back everything since the batch began. -/
def rollBack (b : Batch) (cause : String) : Action SyncFailure := do
  let c ← get
  let plan ← ExceptT.mk (pure (c.plan.restore b.snapshot))
  set { c with plan }
  saveCache
  modify (·.mark b.serial .rolledBack)
  let failure : SyncFailure :=
    { user := c.owner, mutations := b.mutations
      semesters := ← ExceptT.mk (pure b.sortedSemesters), cause }
  modify fun c => { c with lastFailure := some failure }
  note s!"[SYNC] Rolled back: {failure.text}"
  return failure

/-- Tells the listeners of a failure. One that fails is only warned of. -/
def notify (listeners : List Listener) : Action Unit :=
  listeners.forM fun l =>
    match l.fault with
    | some text => note s!"[WARN] on_sync_failed listener raised: {text}"
    | none => pure ()

/-- Acts on the outcome of a write: `none` if it succeeded, the cause if it failed. -/
def finishFlush (b : Batch) (outcome : Option String) : Action Flushed := do
  let c ← get
  match dropBatch? b c.inFlight with
  | none => throw (.value .batchNotListed)
  | some rest =>
    set { c with inFlight := rest }
    if b.epoch != c.epoch then
      note "[SYNC] Ignoring result of a write issued for a previous session."
      settle
      return { state := b.state }
    match outcome with
    | none =>
      modify fun c => { (c.mark b.serial .committed) with lastOutcome := some .committed }
      settle
      return { state := .committed }
    | some cause =>
      if b.closedAt != some c.plan.version then
        let semesters ← ExceptT.mk (pure b.sortedSemesters)
        note (s!"[SYNC] Write for semesters {(Json.arr semesters).shown} failed after newer " ++
          s!"changes; keeping local state and retrying with the next batch: {cause}")
        modify fun c => ((c.mark b.serial .pending).requeue b).settled
        return { state := .pending }
      let failure ← rollBack b cause
      modify fun c => { c with lastOutcome := some .rolledBack }
      settle
      notify c.listeners
      return { state := .rolledBack, notice := some (failure, c.listeners) }

/-- Writes the waiting batch now: the end of the flush, or none if nothing was waiting. Whatever
    happens to the coordinator during the write is up to `perform`. -/
def flush {m : Type → Type} [Monad m] (perform : Write → StateT Coordinator m (Option String)) :
    StateT Coordinator m (Except Fault (Option Flushed)) := fun c => do
  match beginFlush.run c with
  | (.error f, c) => pure (.error f, c)
  | (.ok none, c) => pure (.ok none, c)
  | (.ok (some (b, write)), c) => do
    let (outcome, c) ← perform write c
    let (result, c) := (finishFlush b outcome).run c
    pure (result.map some, c)

/-- Applies mutations one by one and collects the refusals of the plan. -/
def applyAll : List Mutation → Action (List Fault)
  | [] => pure []
  | m :: ms => do
    let refused ← tryCatch (do apply m; pure []) fun f =>
      if f.isRefusal then pure [f] else throw f
    return refused ++ (← applyAll ms)

/-- Applies the mutations of a failure again. Those that no longer apply are skipped, and the
    refusals are given. -/
def retry (failure : SyncFailure) : Action (List Fault) := do
  if failure.user != (← get).owner then throw (.plan .otherSession)
  applyAll failure.mutations

/-! ## Sessions -/

/-- Discards the plan of the current user and everything that belongs to it. -/
def endSession : Action Unit := do
  let previous := (← get).owner
  modify fun c =>
    { c.stopTimer with
      epoch := c.epoch + 1, queued := none, plan := { owner := none }, owner := none
      backend := none, lastFailure := none }
  match (← get).cache, previous with
  | some cache, some user =>
    let cache ← ExceptT.mk (pure (cache.clear user))
    modify fun c => { c with cache := some cache }
  | _, _ => pure ()
  settle
  if previous.isSome then
    note "[SYNC] Session ended; discarded plan data for the previous identity."

/-- The semesters that the backend holds; null if there are none or they cannot be had. -/
def loadRemote (remote : Remote) : Action Json := do
  match remote.stored with
  | none => return .null
  | some (.ok data) => return data
  | some (.error cause) =>
    note s!"[WARN] Could not load remote plan; falling back to cache: {cause}"
    return .null

/-- The semesters in the cache; null if there are none. -/
def loadCached (user : String) : Action Json := do
  match (← get).cache with
  | none => return .null
  | some cache =>
    let found := cache.load user
    modify fun c => { c with cache := some found.cache, log := c.log ++ found.log }
    return (← ExceptT.mk (pure found.result)).getD .null

/-- Makes stored semesters the plan. Data that cannot be read is only warned of. -/
def loadPlan (user : String) (data : Json) : Action Unit := do
  if data.isBlank then return
  match (← get).plan.load data with
  | .ok plan => modify fun c => { c with plan }
  | .error f =>
    if f.isDataFault then
      note s!"[WARN] Ignoring unreadable plan data on sign-in: {f.message}"
      modify fun c => { c with plan := { owner := some user } }
    else throw f

/-- Starts the session of a user with the plan that the backend holds, or else the cache. -/
def beginSession (user : String) (remote : Remote) : Action Unit := do
  modify fun c => { c with owner := some user, plan := { owner := some user } }
  ExceptT.mk (pure remote.connected)
  modify fun c => { c with backend := some user }
  let data ← loadRemote remote
  let data ← if data.isBlank then do
      let cached ← loadCached user
      pure (data.orElse cached)
    else pure data
  loadPlan user data
  saveCache

/-- Acts on an event. A sign-out ends the session; any other event of a user who is not the owner
    starts a new one. -/
def handle (event : IdentityEvent) (remote : String → Remote) : Action Unit := do
  if event.kind == .signedOut then endSession
  else match event.user with
    | none => throw (.identity (.noUser event.kind.text))
    | some user =>
      if (← get).owner != some user then
        endSession
        beginSession user (remote user)

end Coordinator
end DegreePlan.Sync
