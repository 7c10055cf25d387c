import DegreePlan.Proofs.Sync.SignIn

/-!
# Isolation of sessions

From within a session two coordinators with different pasts cannot be told apart: neither the plan of
another user nor the fate of the writes that other sessions left behind ever shows.
-/

namespace DegreePlan.Sync

namespace Event

/-- Not an identity event. -/
def InSession : Event → Prop
  | .identity .. => False
  | _ => True

/-- The step of the session, if it is one. -/
def act? : Event → Option Act
  | .act a => some a
  | _ => none

end Event

/-- What the user of a session sees of a world. The numbers of the waiting batch are not seen. -/
structure Sight where
  plan : Plan
  queued : Option Batch
  lastFailure : Option SyncFailure
  file : Option CacheFile

namespace World

/-- What the user sees. -/
def sight (w : World) (user : String) : Sight where
  plan := w.coordinator.plan
  queued := w.coordinator.queued.map fun b => { b with serial := 0, epoch := 0 }
  lastFailure := w.coordinator.lastFailure
  file := w.coordinator.cache.bind (·.file? user)

/-- The world after a run. -/
def after (w : World) (es : List Event) : World := es.foldl (fun w e => (w.step e).1) w

/-- The reports of a run. -/
def reports (w : World) : List Event → List Report
  | [] => []
  | e :: es => (w.step e).2 :: (w.step e).1.reports es

end World

/-- The calls to the backend of a user. -/
def callsTo (user : String) (rs : List Report) : List Call :=
  rs.filterMap fun r => (r.call.filter (·.1 == user)).map (·.2)

/-- The failures that were told. -/
def toldIn (rs : List Report) : List (SyncFailure × List (Option String)) := rs.filterMap (·.told)

namespace Session

open Coordinator

variable {S : Session} {w v : World}

theorem sight_hosts (h : S.HostsWorld w v) : w.sight S.user = v.sight S.user := by
  have hc := h.coordinator
  simp only [World.sight, hc.plan, hc.lastFailure, hc.queued, Option.map_map, Sight.mk.injEq, true_and]
  refine ⟨rfl, ?_⟩
  have := hc.cache
  revert this
  cases w.coordinator.cache <;> cases v.coordinator.cache <;> intro h
  · rfl
  · exact h.elim
  · exact h.elim
  · exact h.2.2

/-- No late write goes to the backend of the user. -/
def Foreign (user : String) (w : World) : Prop := ∀ f ∈ w.late, f.backend ≠ some user

theorem call?_backend {f : Flight} {user : String} {call : Call} (h : f.call? = some (user, call)) :
    f.backend = some user := by
  unfold Flight.call? at h
  split at h
  · next hb _ => cases h; exact hb
  · cases h

theorem late_launch (w : World) : w.launch.1.late = w.late := by
  unfold World.launch
  split <;> rfl

theorem late_act_eq (w : World) (a : Act) : (w.act a).1.late = w.late := by
  cases a with
  | flush => exact late_launch w
  | expire =>
    simp only [World.act]
    split
    · rfl
    · exact late_launch _
  | finish i => simp only [World.act]; split <;> rfl
  | unlisten i => simp only [World.act]; split <;> rfl
  | _ => rfl

theorem foreign_act {user : String} (h : Foreign user w) (a : Act) : Foreign user (w.act a).1 := by
  unfold Foreign
  rw [late_act_eq]
  exact h

/-- A late write makes no call to the backend of the user. -/
theorem foreign_lateAct {user : String} (h : Foreign user w) (a : LateAct) :
    Foreign user (w.lateAct a).1 ∧ ∀ p ∈ (w.lateAct a).2.call, p.1 ≠ user := by
  cases a with
  | reply i r =>
    simp only [World.lateAct, World.answered]
    split
    · exact ⟨h, by simp⟩
    · next f hf =>
      have hb : f.backend ≠ some user := h f (List.mem_of_getElem? hf)
      refine ⟨fun g hg => ?_, fun p hp he => ?_⟩
      · rcases List.mem_or_eq_of_mem_set hg with hg | rfl
        · exact h g hg
        · rw [Flight.answer_backend]; exact hb
      · obtain ⟨u, call⟩ := p
        have := call?_backend hp
        rw [Flight.answer_backend] at this
        dsimp only at he
        exact hb (he ▸ this)
  | finish i =>
    simp only [World.lateAct]
    split
    · exact ⟨h, by simp⟩
    · refine ⟨fun g hg => h g (List.mem_of_mem_eraseIdx hg), ?_⟩
      simp only [Report.ofFlushed]
      split <;> simp

/-- A run of a hosted session shows what the run of the first session shows. -/
theorem run_hosts {es : List Event} (h : S.HostsWorld w v) (hf : Foreign S.user w) (he : ∀ e ∈ es, e.InSession) :
    let own := (es.filterMap Event.act?).map Event.act
    (w.after es).sight S.user = (v.after own).sight S.user ∧
      callsTo S.user (w.reports es) = callsTo S.user (v.reports own) ∧
      toldIn (w.reports es) = toldIn (v.reports own) := by
  induction es generalizing w v with
  | nil => exact ⟨sight_hosts h, rfl, rfl⟩
  | cons e es ih =>
    obtain ⟨he, hes⟩ := List.forall_mem_cons.1 he
    cases e with
    | act a =>
      obtain ⟨hr, hw⟩ := same_act h a
      obtain ⟨h1, h2, h3⟩ := ih hw (foreign_act hf a) hes
      refine ⟨h1, ?_, ?_⟩
      · simp only [List.filterMap_cons, Event.act?, List.map_cons, World.reports, World.step, callsTo, hr] at h2 ⊢
        rw [h2]
      · simp only [List.filterMap_cons, Event.act?, List.map_cons, World.reports, World.step, toldIn, hr] at h3 ⊢
        rw [h3]
    | late a =>
      obtain ⟨hw, ht⟩ := late_act h a
      obtain ⟨hf', hcall⟩ := foreign_lateAct hf a
      obtain ⟨h1, h2, h3⟩ := ih hw hf' hes
      refine ⟨h1, ?_, ?_⟩
      · refine Eq.trans ?_ h2
        have : (w.lateAct a).2.call.filter (·.1 == S.user) = none := by
          rw [Option.filter_eq_none_iff]
          exact fun p hp => by simpa using hcall p hp
        simp [World.reports, World.step, callsTo, this]
      · refine Eq.trans ?_ h3
        simp [World.reports, World.step, toldIn, ht]
    | identity event remote => exact he.elim

/-- A sign-in of a user who is not the owner begins a session as in a world that was never used. -/
theorem hosts_identify (hw : w.Counted) (hc : w.coordinator.Writable) {user : String} {event : IdentityEvent}
    (remote : Remote) (hk : event.kind ≠ .signedOut) (hu : event.user = some user)
    (ho : w.coordinator.owner ≠ some user) :
    (w.coordinator.session user).HostsWorld (w.identify event remote).1
        (World.identify { coordinator := w.coordinator.asUnused user } event remote).1 ∧
      (w.identify event remote).1.late = w.late ++ w.flights := by
  obtain ⟨-, h⟩ := hosts_handle hw.coordinator hc remote hk hu ho
  have h1 := h.first
  have h2 := h.epoch
  have hne : ((handle event fun _ => remote).run w.coordinator).2.epoch ≠ w.coordinator.epoch := by
    rw [h2, h1]; simp only [session]; omega
  have hne' : ((handle event fun _ => remote).run (w.coordinator.asUnused user)).2.epoch ≠
      (w.coordinator.asUnused user).epoch := by
    rw [h1]; simp [asUnused, unused]
  have hlen := numbered_length hw.coordinator.listeners
  simp only [World.identify, hne, hne', ↓reduceIte, and_true]
  refine ⟨h, rfl, by simp, fun f hf => ?_⟩
  obtain ⟨hs, he⟩ : w.coordinator.Given f.batch := (List.mem_append.1 hf).elim (hw.late f) (hw.flights f)
  exact ⟨by simp only [session]; omega, he⟩

end Session

open Coordinator

/-- A session shows nothing of what was before it. Take two reachable worlds with listeners alike in which
a sign-in of the same user, who owns neither, finds the same stored plan and the same cached file. Let
each be followed by a run, such that both have the same steps of the session and late writes of other
users end at any points between them. Then the plan, the waiting batch, the last failure and the cached
file are the same in the end, and so are all calls to the backend of the user and all failures that
were told; and the sign-in left no file of the previous owner. -/
theorem isolation {w₁ w₂ : World} (h₁ : World.Reachable w₁) (h₂ : World.Reachable w₂)
    {user : String} {event : IdentityEvent} (remote : Remote) (hk : event.kind ≠ .signedOut)
    (hu : event.user = some user) (owner₁ : w₁.coordinator.owner ≠ some user)
    (owner₂ : w₂.coordinator.owner ≠ some user)
    (others₁ : ∀ f ∈ w₁.late ++ w₁.flights, f.backend ≠ some user)
    (others₂ : ∀ f ∈ w₂.late ++ w₂.flights, f.backend ≠ some user)
    (writable₁ : w₁.coordinator.Writable) (writable₂ : w₂.coordinator.Writable)
    (listeners : w₁.coordinator.listeners.map (·.fault) = w₂.coordinator.listeners.map (·.fault))
    (caches : w₁.coordinator.cache.isSome = w₂.coordinator.cache.isSome)
    (file : w₁.coordinator.kept user = w₂.coordinator.kept user) {es₁ es₂ : List Event}
    (in₁ : ∀ e ∈ es₁, e.InSession) (in₂ : ∀ e ∈ es₂, e.InSession)
    (same : es₁.filterMap Event.act? = es₂.filterMap Event.act?) :
    let v₁ := (w₁.identify event remote).1
    let v₂ := (w₂.identify event remote).1
    (v₁.after es₁).sight user = (v₂.after es₂).sight user ∧
      callsTo user (v₁.reports es₁) = callsTo user (v₂.reports es₂) ∧
      toldIn (v₁.reports es₁) = toldIn (v₂.reports es₂) ∧
      ∀ other, w₁.coordinator.owner = some other → Cache.fileName other ≠ Cache.fileName user →
        ∀ d ∈ v₁.coordinator.cache, d.file? other = none := by
  intro v₁ v₂
  obtain ⟨hw₁, late₁⟩ := Session.hosts_identify h₁.counted writable₁ remote hk hu owner₁
  obtain ⟨hw₂, late₂⟩ := Session.hosts_identify h₂.counted writable₂ remote hk hu owner₂
  have unused : w₁.coordinator.asUnused user = w₂.coordinator.asUnused user := by
    have hcache : ∀ {a b : Option Cache} (d : Cache), a.isSome = b.isSome →
        a.map (fun _ => d) = b.map (fun _ => d) := by
      intro a b d h
      cases a <;> cases b <;> first | rfl | cases h
    simp only [asUnused, listeners, file, hcache _ caches]
  rw [← unused] at hw₂
  obtain ⟨s₁, c₁, t₁⟩ :=
    Session.run_hosts hw₁ (by unfold Session.Foreign; rw [late₁]; exact others₁) in₁
  obtain ⟨s₂, c₂, t₂⟩ :=
    Session.run_hosts hw₂ (by unfold Session.Foreign; rw [late₂]; exact others₂) in₂
  rw [← same] at s₂ c₂ t₂
  refine ⟨s₁.trans s₂.symm, c₁.trans c₂.symm, t₁.trans t₂.symm, fun other ho hne => ?_⟩
  have := Session.absent_handle writable₁ remote hk hu owner₁ ho hne
  have coordinator : v₁.coordinator = ((handle event fun _ => remote).run w₁.coordinator).2 := by
    simp only [v₁, World.identify]
    split <;> rfl
  rw [coordinator]
  exact this

/-- A user signs in to a new coordinator, and to one where another has a file in the cache, a batch that waits and a
write under way. This write fails while the new session writes, and nobody in the session can tell. -/
theorem isolation_second_user :
    let stored (course : Int) : Remote := { stored := some (.ok (.arr [.obj [("id", .int 202400), ("courses", .arr
      [.obj [("id", .int course), ("code", .str "CS 101"), ("semester_id", .int 202400)]])]])) }
    let arrival (user : String) : IdentityEvent := { user := some user, kind := .signedIn }
    let status (course : Int) (text : String) : Event :=
      .act (.mutate (.setStatus (.int 202400) (.int course) (.str text) .null))
    let fresh : World := { coordinator := .new 0.4 (some {}) }
    let used := fresh.after [.identity (arrival "user-a") (stored 1), status 1 "in-progress", .act .flush,
      status 1 "planned"]
    let own : List Event := [status 2 "in-progress", .act .flush, .act (.reply 0 .accepted), .act (.finish 0)]
    let mixed : List Event := [.late (.reply 0 .rejected), status 2 "in-progress", .act .flush, .late (.finish 0),
      .act (.reply 0 .accepted), .act (.finish 0)]
    let v := (used.identify (arrival "user-b") (stored 2)).1
    let first := (fresh.identify (arrival "user-b") (stored 2)).1
    (used.coordinator.queued.isSome ∧ used.flights.length = 1 ∧ used.coordinator.cache.any (·.has "user-a")) ∧
      (v.late.length = 1 ∧ (v.after mixed).late = [] ∧ (callsTo "user-b" (v.reports mixed)).length = 1) ∧
      (v.after mixed).sight "user-b" = (first.after own).sight "user-b" ∧
      callsTo "user-b" (v.reports mixed) = callsTo "user-b" (first.reports own) ∧
      ∀ d ∈ v.coordinator.cache, d.file? "user-a" = none := by
  intro stored arrival status fresh used own mixed v first
  have new : World.Reachable fresh := .new 0.4 (some {})
  have reached : World.Reachable used := (((new.step _).step _).step _).step _
  have owner : used.coordinator.owner = some "user-a" := by decide +kernel
  have others : ∀ f ∈ used.late ++ used.flights, f.backend ≠ some "user-b" := by decide +kernel
  have writable : used.coordinator.Writable := by unfold Writable; decide +kernel
  have unheard : used.coordinator.listeners.map (·.fault) = [] := by decide +kernel
  have cached : used.coordinator.cache.isSome = true := by decide +kernel
  have absent : used.coordinator.kept "user-b" = none := Option.isNone_iff_eq_none.1 (by decide +kernel)
  have inOwn : ∀ e ∈ own, e.InSession := by simp [Event.InSession, own, status]
  have inMixed : ∀ e ∈ mixed, e.InSession := by simp [Event.InSession, mixed, status]
  have arrives : (arrival "user-b").kind ≠ .signedOut := by decide
  obtain ⟨sight, calls, -, gone⟩ := isolation reached new (stored 2) arrives rfl (by rw [owner]; decide) nofun
    others nofun writable (by unfold Writable; decide) unheard cached absent inMixed inOwn rfl
  have busy : used.coordinator.queued.isSome ∧ used.flights.length = 1 ∧
      used.coordinator.cache.any (·.has "user-a") := by
    decide +kernel
  have ended : v.late.length = 1 ∧ (v.after mixed).late.length = 0 ∧
      (callsTo "user-b" (v.reports mixed)).length = 1 := by
    decide +kernel
  exact ⟨busy, ended.imp_right (And.imp_left List.length_eq_zero_iff.1), sight, calls,
    gone "user-a" owner (by decide +kernel)⟩

end DegreePlan.Sync
