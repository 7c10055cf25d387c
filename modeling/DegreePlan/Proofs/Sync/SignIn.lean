import Mathlib.Data.List.Perm.Subperm
import DegreePlan.Proofs.Plan.Load
import DegreePlan.Proofs.Sync.Hosting

/-!
# Sign-ins

A sign-in of a user who is not the owner begins a session as in a coordinator that was never used, and
every step of the session goes as it would there. Late writes of earlier sessions change nothing.
-/

namespace DegreePlan.Sync

namespace Coordinator

variable {c : Coordinator} {user : String}

/-! ## The beginning of a session -/

/-- The file that a session of the user finds, once the file of the owner is cleared. -/
def kept (c : Coordinator) (user : String) : Option CacheFile :=
  if c.owner.map Cache.fileName = some (Cache.fileName user) then none else c.cache.bind (·.file? user)

/-- Cache files can be written. -/
def Writable (c : Coordinator) : Prop := ∀ d ∈ c.cache, d.Free

/-- An ended session leaves no file of its owner and every other file. -/
theorem cleared_ok (h : c.Writable) : ∃ cache, c.cleared = .ok cache ∧ cache.isSome = c.cache.isSome ∧
    ∀ d ∈ cache, d.Free ∧ (∀ o ∈ c.owner, d.file? o = none) ∧ ∀ user, d.file? user = c.kept user := by
  unfold cleared
  split
  · next cache user hc ho =>
    obtain ⟨d, hd, hf, hn, hk⟩ := Cache.clear_ok (h cache hc) user
    refine ⟨some d, by rw [hd]; rfl, by rw [hc]; rfl, fun d' hd' => ?_⟩
    cases hd'
    refine ⟨hf, fun o hO => by rw [ho] at hO; cases hO; exact hn, fun other => ?_⟩
    simp only [kept, ho, Option.map_some, Option.some.injEq, hc, Option.bind_some]
    split
    · next he => rw [Cache.file?, ← he]; exact hn
    · next he => exact hk other fun he' => he he'.symm
  · next hnone =>
    refine ⟨c.cache, rfl, rfl, fun d hc => ?_⟩
    have ho : c.owner = none := by
      cases ho : c.owner with
      | none => rfl
      | some o => exact absurd ho (hnone d o hc)
    refine ⟨h d hc, by simp [ho], fun other => ?_⟩
    have hc : c.cache = some d := hc
    simp [kept, ho, hc]

theorem endSession_ok (h : c.Writable) : ∃ cache state log,
    endSession.run c = (.ok (), { c.ended with cache, state, log }) ∧ cache.isSome = c.cache.isSome ∧
      ∀ d ∈ cache, d.Free ∧ (∀ o ∈ c.owner, d.file? o = none) ∧ ∀ user, d.file? user = c.kept user := by
  obtain ⟨cache, hc, kept⟩ := cleared_ok h
  obtain ⟨log, state, hr⟩ := c.endSession_eq
  exact ⟨cache, state, log, by rw [hr, hc], kept⟩

/-- A coordinator that was never used, with listeners. -/
def unused (cache : Option Cache) (faults : List (Option String)) : Coordinator :=
  { cache
    listeners := faults.zipIdx.map fun (fault, handle) => { handle, fault }
    fresh := faults.length }

/-- The coordinator that was never used and offers a session of the user what `c` offers it. -/
def asUnused (c : Coordinator) (user : String) : Coordinator :=
  unused (c.cache.map fun _ => { directory := .files ((c.kept user).toList.map fun f => (Cache.fileName user, f)) })
    (c.listeners.map (·.fault))

/-- The session of the user that begins in `c` now. -/
def session (c : Coordinator) (user : String) : Session :=
  { user, serials := c.fresh - c.listeners.length, epochs := c.epoch, base := c.listeners.length }

theorem numbered_length {ls : List Listener} {n : Nat} (h : Numbered ls n) : ls.length ≤ n := by
  have hs : ls.map (·.handle) ⊆ List.range n := by
    intro k hk
    obtain ⟨l, hl, rfl⟩ := List.mem_map.1 hk
    exact List.mem_range.2 (h.given l hl)
  simpa using (List.subperm_of_subset h.distinct hs).length_le

theorem unused_faults (cache : Option Cache) (faults : List (Option String)) :
    (unused cache faults).listeners.map (·.fault) = faults := by
  simp only [unused, List.map_map]
  exact List.zipIdx_map_fst 0 faults

theorem unused_handles (cache : Option Cache) (faults : List (Option String)) :
    (unused cache faults).listeners.map (·.handle) = List.range' 0 faults.length := by
  simp only [unused, List.map_map]
  exact List.zipIdx_map_snd 0 faults

theorem numbered_unused (cache : Option Cache) (faults : List (Option String)) :
    Numbered (unused cache faults).listeners (unused cache faults).fresh := by
  refine ⟨unused_handles cache faults ▸ List.nodup_range', fun l hl => ?_⟩
  have := List.mem_map_of_mem (f := (·.handle)) hl
  rw [unused_handles, List.mem_range'_1, Nat.zero_add] at this
  exact this.2

theorem kept_asUnused (c : Coordinator) (user : String) (h : c.cache.isSome) :
    (c.asUnused user).kept user = c.kept user := by
  obtain ⟨d, hd⟩ := Option.isSome_iff_exists.1 h
  unfold asUnused
  generalize c.kept user = f
  cases f <;> simp [unused, kept, hd, Cache.file?, Cache.files]

theorem handle_signIn {event : IdentityEvent} {remote : String → Remote} (hk : event.kind ≠ .signedOut)
    (hu : event.user = some user) (ho : c.owner ≠ some user) :
    (handle event remote).run c = (endSession >>= fun _ => beginSession user (remote user)).run c := by
  have hk' : (event.kind == EventKind.signedOut) = false := by simpa using hk
  simp [handle, hk', hu, run_bind, ho]

/-- Where the cache holds nothing, the plan is what the backend holds. -/
theorem reading_remote {cache : Option Cache} (remote : Remote) (nothing : cached user cache = .ok .null) :
    reading user remote cache = readPlan user remote.data := by
  unfold reading found
  split
  · next blank =>
    rw [nothing]
    exact (if_pos blank).symm
  · rfl

/-- What can be loaded is read with the same semesters. -/
theorem readPlan_of_load {data : Json} {p : Plan} (load : ({ owner := some user } : Plan).load data = .ok p) :
    ∃ q, readPlan user data = .ok q ∧ q.owner = some user ∧ q.semesters = p.semesters := by
  cases blank : data.isBlank
  · exact ⟨p, readPlan_load blank load, (Plan.load_eq_ok load).2.1, rfl⟩
  · exact ⟨_, if_pos blank, rfl, (Plan.load_blank blank load).symm⟩

/-- Without a cache, a session begins with nothing or with what the backend holds. -/
theorem beginSession_uncached (hc : c.cache = none) (user : String) (remote : Remote) :
    ∃ r backend plan log, (beginSession user remote).run c =
      (r, { c with owner := some user, backend, plan, log }) ∧
      (plan = { owner := some user } ∨ ({ owner := some user } : Plan).load remote.data = .ok plan) ∧
      ∀ p, remote.connected = .ok () → ({ owner := some user } : Plan).load remote.data = .ok p →
        r = .ok () ∧ backend = some user ∧ plan.owner = some user ∧ plan.semesters = p.semesters := by
  cases connected : remote.connected with
  | error f => exact ⟨_, c.backend, _, c.log, c.beginSession_unconnected user connected, .inl rfl, nofun⟩
  | ok u =>
    have same : visited user remote c.cache = c.cache := by rw [hc]; unfold visited; split <;> rfl
    have uncached : reading user remote c.cache = readPlan user remote.data := reading_remote remote (by rw [hc]; rfl)
    obtain ⟨log, hr⟩ := c.beginSession_connected user connected
    rw [same, uncached] at hr
    cases read : readPlan user remote.data with
    | error f =>
      rw [read] at hr
      refine ⟨_, some user, _, log, hr, .inl rfl, fun p _ load => ?_⟩
      obtain ⟨q, hq, -⟩ := readPlan_of_load load
      cases read.symm.trans hq
    | ok q =>
      rw [read] at hr
      refine ⟨_, some user, q, log, hr.trans (saveCache_uncached hc), readPlan_cases read, fun p _ load => ?_⟩
      obtain ⟨q', hq, owner, semesters⟩ := readPlan_of_load load
      obtain rfl : q = q' := Except.ok.inj (read.symm.trans hq)
      exact ⟨rfl, rfl, owner, semesters⟩

/-- Without a cache, a sign-in that succeeds gives the plan that the backend holds. -/
theorem signIn_uncached (hc : c.cache = none) {event : IdentityEvent} (hk : event.kind ≠ .signedOut)
    (hu : event.user = some user) (ho : c.owner ≠ some user) {remote : Remote}
    (connected : remote.connected = .ok ()) {p : Plan} (hl : ({ owner := some user } : Plan).load remote.data = .ok p) :
    ∃ plan state log, (handle event fun _ => remote).run c =
      (.ok (), { c.ended with owner := some user, backend := some user, cache := none, plan, state, log }) ∧
        plan.owner = some user ∧ plan.semesters = p.semesters := by
  obtain ⟨cache, state, log, hr, hs, -⟩ := endSession_ok (c := c) (by rw [Writable, hc]; nofun)
  obtain rfl : cache = none := by simpa [hc] using hs
  rw [handle_signIn hk hu ho, run_bind, hr]
  obtain ⟨r, backend, plan, log, hb, -, hp⟩ :=
    beginSession_uncached (c := { c.ended with cache := none, state, log }) rfl user remote
  obtain ⟨rfl, rfl, howner, hplan⟩ := hp p connected hl
  exact ⟨plan, state, log, hb, howner, hplan⟩

/-- Without a cache, an event keeps the plan and the batch, or begins with nothing or with what the backend
of its user holds. -/
theorem handle_uncached (hc : c.cache = none) (event : IdentityEvent) (remote : Remote) :
    let d := ((handle event fun _ => remote).run c).2
    d.cache = none ∧ ((d.queued = c.queued ∧ d.plan = c.plan) ∨ (d.queued = none ∧ (d.plan.semesters = [] ∨
      ∃ user, event.user = some user ∧ ({ owner := some user } : Plan).load remote.data = .ok d.plan))) := by
  obtain ⟨cache, state, log, he, hs, -⟩ := endSession_ok (c := c) (by rw [Writable, hc]; nofun)
  obtain rfl : cache = none := by simpa [hc] using hs
  unfold handle
  split
  · rw [he]
    exact ⟨rfl, .inr ⟨rfl, .inl rfl⟩⟩
  split
  · exact ⟨hc, .inl ⟨rfl, rfl⟩⟩
  next user hu =>
  simp only [run_bind, run_get]
  split
  · rw [run_bind, he]
    obtain ⟨r, backend, plan, log, hb, hp, -⟩ :=
      beginSession_uncached (c := { c.ended with cache := none, state, log }) rfl user remote
    dsimp only
    rw [hb]
    refine ⟨rfl, .inr ⟨rfl, hp.imp (fun hp => ?_) fun hp => ⟨user, hu, hp⟩⟩⟩
    rw [hp]
  · exact ⟨hc, .inl ⟨rfl, rfl⟩⟩

/-- A cache that was looked into has no file that was not there. -/
theorem visited_files {cache : Option Cache} (remote : Remote) (free : ∀ d ∈ cache, d.Free) :
    ∀ d ∈ visited user remote cache,
    d.Free ∧ ∀ other, (∀ e ∈ cache, e.file? other = none) → d.file? other = none := by
  unfold visited
  split
  · intro d hd
    obtain ⟨e, he, rfl⟩ := Option.map_eq_some_iff.1 hd
    exact ⟨Cache.load_free (free e he), fun other absent => Cache.load_absent (absent e he)⟩
  · exact fun d hd => ⟨free d hd, fun other absent => absent d hd⟩

end Coordinator

namespace Session

open Coordinator

variable {c : Coordinator} {user : String}

/-- A sign-in of a user who is not the owner gives a session as in a coordinator that was never used. -/
theorem hosts_handle (hc : c.Counted) (hw : c.Writable) {event : IdentityEvent} (remote : Remote)
    (hk : event.kind ≠ .signedOut) (hu : event.user = some user) (ho : c.owner ≠ some user) :
    Alike Eq ((handle event fun _ => remote).run c).1 ((handle event fun _ => remote).run (c.asUnused user)).1 ∧
      (c.session user).Hosts ((handle event fun _ => remote).run c).2
        ((handle event fun _ => remote).run (c.asUnused user)).2 := by
  have hu' : (c.asUnused user).Writable := by
    intro d hd
    obtain ⟨e, -, rfl⟩ := Option.map_eq_some_iff.1 hd
    simp [Cache.Free]
  rw [handle_signIn hk hu ho, handle_signIn hk hu (by simp [asUnused, unused]), run_bind, run_bind]
  obtain ⟨cache, state, log, hr, hs, hd⟩ := endSession_ok hw
  obtain ⟨cache', state', log', hr', hs', hd'⟩ := endSession_ok hu'
  rw [hr, hr']
  dsimp only
  rw [beginSession_eq, run_bind, run_bind, run_modify, run_modify]
  have rest : (c.session user).Sim Eq
      (do ExceptT.mk (pure remote.connected)
          modify fun c => { c with backend := some user }
          loadSession user remote)
      (do ExceptT.mk (pure remote.connected)
          modify fun c => { c with backend := some user }
          loadSession user remote) :=
    sim_step (sim_mk (alike_refl _)) fun _ => sim_step (sim_modify fun c s h => { h with backend := rfl }) fun _ =>
      sim_loadSession remote
  obtain ⟨ht, htimer⟩ := timers_stopped hc
  have hlen := numbered_length hc.listeners
  refine rest _ _ ?_
  exact {
    isOwner := rfl, owner := rfl, backend := rfl, plan := rfl, lastFailure := rfl, first := rfl
    epoch := by simp [ended, session, asUnused, unused, Nat.add_comm]
    fresh := by simp [ended, session, asUnused, unused]; omega
    base := by simp [ended, session, asUnused, unused]
    queued := rfl, ownQueued := by simp [ended]
    inFlight := by
      refine ⟨c.inFlight, by simp [ended, asUnused, unused], fun b hb => ?_⟩
      obtain ⟨hn, he⟩ := hc.inFlight b hb
      exact ⟨by simp only [session]; omega, he⟩
    ownInFlight := by simp [ended, asUnused, unused]
    timer := htimer
    timers := congrArg (List.map (·.handle)) ht
    listeners := by simpa [ended, asUnused] using (unused_faults _ _).symm
    numbered := by simpa [ended] using hc.listeners
    ownNumbered := by simpa [ended, asUnused] using numbered_unused _ _
    cache := by
      have hsome : cache.isSome = cache'.isSome := by rw [hs, hs']; simp [asUnused, unused]
      cases cache with
      | none =>
        cases cache' with
        | none => trivial
        | some => cases hsome
      | some d =>
        cases cache' with
        | none => cases hsome
        | some d' =>
          obtain ⟨hf, -, hk⟩ := hd d rfl
          obtain ⟨hf', -, hk'⟩ := hd' d' rfl
          exact ⟨hf, hf', (hk user).trans ((kept_asUnused c user hs.symm).symm.trans (hk' user).symm)⟩ }

/-! ## The file of the previous owner -/

/-- A user has no file, in a session of another user. -/
def Absent (other user : String) (c : Coordinator) : Prop :=
  c.owner = some user ∧ ∀ d ∈ c.cache, d.Free ∧ d.file? other = none

variable {other : String}

/-- A save is one of the plan as it is filed, for the owner. -/
theorem savedCache_cases {e : Cache} (h : c.savedCache = some e) : c.cache = some e ∨
    ∃ d user json, c.cache = some d ∧ c.owner = some user ∧ c.plan.filed = .ok json ∧
      (d.save user json).cache = e := by
  unfold savedCache at h
  split at h
  · next d user hc ho =>
    split at h
    · next json filed => exact .inr ⟨d, user, json, hc, ho, filed, Option.some.inj h⟩
    · exact .inl (hc.trans h)
  · exact .inl h

theorem absent_saveCache (h : Cache.fileName other ≠ Cache.fileName user) :
    Keeps (Absent other user) saveCache := by
  intro c hc
  obtain ⟨r, cache, log, hr, rfl, -⟩ := c.saveCache_frame
  rw [hr]
  refine ⟨hc.1, fun e he => ?_⟩
  rcases savedCache_cases he with he | ⟨d, owner, json, hd, ho, -, rfl⟩
  · exact hc.2 e he
  · obtain rfl : user = owner := Option.some.inj (hc.1.symm.trans ho)
    obtain ⟨free, absent⟩ := hc.2 d hd
    obtain ⟨freeAfter, others⟩ := Cache.save_frame free user json
    exact ⟨freeAfter, (others other h).trans absent⟩

/-- After a sign-in of another user the previous owner has no file. -/
theorem absent_handle (hw : c.Writable) {event : IdentityEvent} (remote : Remote) (hk : event.kind ≠ .signedOut)
    (hu : event.user = some user) (ho : c.owner ≠ some user) (hother : c.owner = some other)
    (h : Cache.fileName other ≠ Cache.fileName user) :
    ∀ d ∈ ((handle event fun _ => remote).run c).2.cache, d.file? other = none := by
  rw [handle_signIn hk hu ho, run_bind]
  obtain ⟨cache, state, log, hr, -, hd⟩ := endSession_ok hw
  have absent : ∀ d ∈ cache, d.file? other = none := fun d hm => (hd d hm).2.1 other hother
  have visits : ∀ d ∈ visited user remote cache, d.Free ∧ d.file? other = none := fun d hm =>
    (visited_files remote (fun d hm => (hd d hm).1) d hm).imp_right fun gone => gone other absent
  rw [hr]
  dsimp only
  cases connected : remote.connected with
  | error f =>
    rw [beginSession_unconnected _ user connected]
    exact absent
  | ok u =>
    obtain ⟨log, hb⟩ := beginSession_connected { c.ended with cache, state, log } user connected
    rw [hb]
    cases reading user remote cache with
    | error f => exact fun d hm => (visits d hm).2
    | ok p => exact fun d hm => ((absent_saveCache h _ ⟨rfl, visits⟩).2 d hm).2

/-! ## Steps -/

theorem filter_ne_eq_eraseIdx {ls : List Listener} (h : (ls.map (·.handle)).Nodup) {i : Nat} {l : Listener}
    (hl : ls[i]? = some l) : ls.filter (·.handle != l.handle) = ls.eraseIdx i := by
  induction ls generalizing i with
  | nil => simp
  | cons a ls ih =>
    rw [List.map_cons, List.nodup_cons] at h
    cases i with
    | zero =>
      simp only [List.getElem?_cons_zero, Option.some.injEq] at hl
      subst hl
      simp only [List.filter_cons, bne_self_eq_false, Bool.false_eq_true, ↓reduceIte, List.eraseIdx_cons_zero]
      rw [List.filter_eq_self]
      intro b hb
      have : b.handle ≠ a.handle := fun he => h.1 (List.mem_map.2 ⟨b, hb, he⟩)
      simpa using this
    | succ i =>
      simp only [List.getElem?_cons_succ] at hl
      have : a.handle ≠ l.handle := fun he => h.1 (List.mem_map.2 ⟨l, List.mem_of_getElem? hl, he.symm⟩)
      simp [this, ih h.2 hl]

variable {S : Session} {c s : Coordinator}

theorem hosts_listen (h : S.Hosts c s) (fault : Option String) : S.Hosts (c.listen fault).2 (s.listen fault).2 :=
  { h with
    fresh := by simp only [Coordinator.listen, h.fresh]; omega
    base := Nat.le_succ_of_le h.base
    listeners := by simp [Coordinator.listen, h.listeners]
    numbered := numbered_listen h.numbered fault
    ownNumbered := numbered_listen h.ownNumbered fault }

theorem hosts_unlisten (h : S.Hosts c s) {i : Nat} {l m : Listener} (hl : c.listeners[i]? = some l)
    (hm : s.listeners[i]? = some m) : S.Hosts (c.unlisten l.handle) (s.unlisten m.handle) := by
  have hc := filter_ne_eq_eraseIdx h.numbered.distinct hl
  have hs := filter_ne_eq_eraseIdx h.ownNumbered.distinct hm
  exact { h with
    listeners := by
      simp only [unlisten, hc, hs, ← List.eraseIdx_map, h.listeners]
    numbered := ⟨(List.filter_sublist.map _).nodup h.numbered.distinct,
      fun l hl => h.numbered.given l (List.mem_of_mem_filter hl)⟩
    ownNumbered := ⟨(List.filter_sublist.map _).nodup h.ownNumbered.distinct,
      fun l hl => h.ownNumbered.given l (List.mem_of_mem_filter hl)⟩ }

theorem hosts_expire (h : S.Hosts c s) : c.expire.1 = s.expire.1 ∧ S.Hosts c.expire.2 s.expire.2 := by
  have hl := congrArg List.getLast? h.timers
  simp only [List.getLast?_map] at hl
  unfold expire
  cases hc : c.timers.getLast? <;> cases hs : s.timers.getLast? <;> rw [hc, hs] at hl
  · exact ⟨rfl, h⟩
  · cases hl
  · cases hl
  · exact ⟨rfl, { h with timers := by simp only [List.map_dropLast, h.timers] }⟩

/-! ## Worlds -/

/-- A write of the session as it is listed after a past. -/
def placeFlight (S : Session) (f : Flight) : Flight := { f with batch := S.place f.batch }

/-- The world `w` hosts the session that `v` has as its first, besides late writes. -/
structure HostsWorld (S : Session) (w v : World) : Prop where
  coordinator : S.Hosts w.coordinator v.coordinator
  flights : w.flights = v.flights.map S.placeFlight
  own : ∀ f ∈ v.flights, S.Own f.batch
  late : ∀ f ∈ w.late, S.Before f.batch

variable {w v : World} {α β : Type}

/-- Both steps show the same, and the session stays hosted. -/
def SameStep (S : Session) (r q : World × Report) : Prop := r.2 = q.2 ∧ S.HostsWorld r.1 q.1

theorem ofResult_alike {r q : Except Fault α} (h : Alike Eq r q) : Report.ofResult r = Report.ofResult q := by
  cases h with
  | ok h => rfl
  | error f => rfl

theorem ofFlushed_alike {r q : Except Fault Flushed} (h : Alike SameEnd r q) :
    Report.ofFlushed r = Report.ofFlushed q := by
  cases h with
  | ok h => simp only [Report.ofFlushed, h.1, h.2]
  | error f => rfl

theorem same_operate (h : S.HostsWorld w v) {x y : Action α} (hx : S.Sim Eq x y) :
    S.SameStep (w.operate x) (v.operate y) := by
  obtain ⟨hr, hc⟩ := hx _ _ h.coordinator
  exact ⟨ofResult_alike hr, { h with coordinator := hc }⟩

theorem start_place (p : Plan) (b : Batch) (write : Write) :
    Flight.start p (S.place b) write = S.placeFlight (Flight.start p b write) := by
  unfold Flight.start
  split <;> rfl

theorem call?_place (f : Flight) : (S.placeFlight f).call? = f.call? := rfl

theorem answer_place (f : Flight) (r : Reply) : (S.placeFlight f).answer r = S.placeFlight (f.answer r) := by
  unfold Flight.answer
  simp only [placeFlight]
  split
  · rfl
  · split <;> rfl

theorem answered_place (fs : List Flight) (i : Nat) (r : Reply) :
    World.answered (fs.map S.placeFlight) i r =
      ((World.answered fs i r).1.map S.placeFlight, (World.answered fs i r).2) := by
  unfold World.answered
  rw [List.getElem?_map]
  cases fs[i]? with
  | none => rfl
  | some f => simp [answer_place, call?_place, List.map_set]

theorem ready?_place (fs : List Flight) (i : Nat) :
    World.ready? (fs.map S.placeFlight) i = (World.ready? fs i).map S.placeFlight := by
  unfold World.ready?
  rw [List.getElem?_map]
  cases fs[i]? with
  | none => rfl
  | some f => cases h : f.left.isEmpty <;> simp [placeFlight, h, Option.filter]

theorem same_launch (h : S.HostsWorld w v) : S.SameStep w.launch v.launch := by
  obtain ⟨hr, hc⟩ := sim_beginFlush _ _ h.coordinator
  unfold World.launch
  revert hr hc
  generalize beginFlush.run w.coordinator = r
  generalize beginFlush.run v.coordinator = q
  obtain ⟨_, c⟩ := r
  obtain ⟨_, s⟩ := q
  rintro (⟨hr⟩ | f) hc
  · cases hr with
    | none => exact ⟨rfl, { h with coordinator := hc }⟩
    | @some x y hxy =>
      obtain ⟨b, write⟩ := x
      obtain ⟨b', write'⟩ := y
      obtain ⟨⟨hb, ho⟩, hw⟩ := hxy
      dsimp only at hb hw
      subst hb hw
      dsimp only at hc ⊢
      rw [hc.plan, start_place]
      refine ⟨rfl, { h with coordinator := hc, flights := by simp [h.flights], own := fun f hf => ?_ }⟩
      rcases List.mem_append.1 hf with hf | hf
      · exact h.own f hf
      · rw [List.mem_singleton.1 hf, Flight.start_batch]; exact ho
  · exact ⟨rfl, { h with coordinator := hc }⟩

/-- A step of the session goes as in the first session. -/
theorem same_act (h : S.HostsWorld w v) (a : Act) : S.SameStep (w.act a) (v.act a) := by
  cases a with
  | mutate m => exact same_operate h (sim_apply m)
  | retry failure => exact same_operate h (sim_retry failure)
  | flush => exact same_launch h
  | expire =>
    obtain ⟨he, hc⟩ := hosts_expire h.coordinator
    unfold World.act
    dsimp only
    revert he hc
    generalize w.coordinator.expire = r
    generalize v.coordinator.expire = q
    obtain ⟨b, c⟩ := r
    obtain ⟨b', s⟩ := q
    intro he hc
    dsimp only at he
    subst he
    cases b
    · exact ⟨rfl, { h with coordinator := hc }⟩
    · exact same_launch { h with coordinator := hc }
  | reply i r =>
    unfold World.act
    dsimp only
    rw [h.flights, answered_place]
    refine ⟨rfl, { h with flights := rfl, own := fun f hf => ?_ }⟩
    obtain ⟨g, hg, he, -⟩ := World.mem_answered hf
    rw [he]; exact h.own g hg
  | finish i =>
    unfold World.act
    dsimp only
    rw [h.flights, ready?_place]
    cases hf : World.ready? v.flights i with
    | none => exact ⟨rfl, h⟩
    | some f =>
      obtain ⟨hr, hc⟩ := sim_finishFlush ⟨rfl, h.own f (World.ready?_mem hf).1⟩ f.cause _ _ h.coordinator
      exact ⟨ofFlushed_alike hr, { h with
        coordinator := hc
        flights := by simp [List.eraseIdx_map]
        own := fun g hg => h.own g (List.mem_of_mem_eraseIdx hg) }⟩
  | close => exact ⟨rfl, { h with coordinator := hosts_stopTimer h.coordinator }⟩
  | listen fault => exact ⟨rfl, { h with coordinator := hosts_listen h.coordinator fault }⟩
  | unlisten i =>
    have hl := congrArg (·[i]?) h.coordinator.listeners
    simp only [List.getElem?_map] at hl
    unfold World.act
    dsimp only
    cases hc : w.coordinator.listeners[i]? <;> cases hs : v.coordinator.listeners[i]? <;> rw [hc, hs] at hl
    · exact ⟨rfl, h⟩
    · cases hl
    · cases hl
    · exact ⟨rfl, { h with coordinator := hosts_unlisten h.coordinator hc hs }⟩

/-- A step of a late write leaves the session as it is, and no one is told of anything. -/
theorem late_act (h : S.HostsWorld w v) (a : LateAct) :
    S.HostsWorld (w.lateAct a).1 v ∧ (w.lateAct a).2.told = none := by
  cases a with
  | reply i r =>
    refine ⟨{ h with late := fun f hf => ?_ }, ?_⟩
    · obtain ⟨g, hg, he, -⟩ := World.mem_answered hf
      rw [he]; exact h.late g hg
    · simp only [World.lateAct, World.answered]
      split <;> rfl
  | finish i =>
    unfold World.lateAct
    dsimp only
    cases hf : World.ready? w.late i with
    | none => exact ⟨h, rfl⟩
    | some f =>
      obtain ⟨hc, ht⟩ := hosts_late h.coordinator (h.late f (World.ready?_mem hf).1) f.cause
      exact ⟨{ h with coordinator := hc, late := fun g hg => h.late g (List.mem_of_mem_eraseIdx hg) }, ht⟩

end Session
end DegreePlan.Sync
