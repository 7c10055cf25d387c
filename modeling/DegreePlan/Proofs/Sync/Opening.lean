import DegreePlan.Proofs.Sync.SignIn

/-!
# Sign-ins that fail

What can go wrong before a session has its plan. A sign-in that fails leaves the coordinator as it was,
or signed out, unless the session itself cannot begin: then the user owns a session that is not there,
and signing in again does nothing.
-/

namespace DegreePlan.Sync

namespace Coordinator

/-- The plan with which the session of a user begins. It raises if there is no backend to be had, if what is read
or the plan that is made of it raises, or if the plan cannot be written down for the cache or is too long for it. -/
def opening (user : String) (remote : Remote) (cache : Option Cache) : Except Fault Plan := do
  remote.connected
  let plan ← reading user remote cache
  saved plan cache
  return plan

variable {c d : Coordinator} {user : String} {remote : Remote} {p : Plan} {f : Fault}

/-! ## The beginning -/

theorem saved_visited (p : Plan) (cache : Option Cache) : saved p (visited user remote cache) = saved p cache := by
  unfold visited
  split
  · cases cache with
    | none => rfl
    | some d => simp only [Option.map_some, saved, Cache.free_load]
  · rfl

/-- A session begins just if there is a plan to begin with. -/
theorem beginSession_result (c : Coordinator) (user : String) (remote : Remote) :
    ((beginSession user remote).run c).1 = (fun _ => ()) <$> opening user remote c.cache := by
  cases connected : remote.connected with
  | error f =>
    rw [c.beginSession_unconnected user connected, opening, connected]
    rfl
  | ok u =>
    obtain ⟨log, hr⟩ := c.beginSession_connected user connected
    rw [hr, opening, connected, ok_bind]
    cases reading user remote c.cache with
    | error f => rfl
    | ok p =>
      obtain ⟨log', saves⟩ := saveCache_eq { c with
        owner := some user, backend := some user, plan := p, cache := visited user remote c.cache, log } rfl
      dsimp only
      rw [saves, saved_visited, ok_bind]
      cases saved p c.cache <;> rfl

/-! ## Events -/

/-- Nobody is signed in, and nothing is left of a session. -/
structure SignedOut (c : Coordinator) : Prop where
  owner : c.owner = none
  plan : c.plan = { owner := none }
  queued : c.queued = none

/-- Reads an event and acts on it. -/
def receive (raw : Json) (remote : String → Remote) : Action Unit := do
  handle (← ExceptT.mk (pure (IdentityEvent.ofJson raw))) remote

/-- The user whose session an event begins. -/
def newcomer? (c : Coordinator) (event : IdentityEvent) : Option String :=
  if event.kind = .signedOut then none else event.user.filter fun user => c.owner ≠ some user

theorem newcomer?_eq_some {event : IdentityEvent} :
    c.newcomer? event = some user ↔ event.kind ≠ .signedOut ∧ event.user = some user ∧
    c.owner ≠ some user := by
  by_cases hk : event.kind = .signedOut <;> simp [newcomer?, hk, Option.filter_eq_some_iff]

/-- Nobody is signed in once a session has ended, even if its end failed. -/
theorem endSession_signedOut (c : Coordinator) : (endSession.run c).2.SignedOut := by
  obtain ⟨r, cache, log, state, h⟩ := c.endSession_frame
  rw [h]
  exact ⟨rfl, rfl, rfl⟩

/-- When the last session has ended the next one begins. -/
theorem handle_begins {event : IdentityEvent} (h : c.newcomer? event = some user) {cache : Option Cache}
    (hc : c.cleared = .ok cache) (remote : String → Remote) : ∃ log state, (handle event remote).run c =
      (beginSession user (remote user)).run { c.ended with cache, log, state } := by
  obtain ⟨hk, hu, ho⟩ := newcomer?_eq_some.1 h
  obtain ⟨log, state, ends⟩ := c.endSession_eq
  rw [hc] at ends
  exact ⟨log, state, by rw [handle_signIn hk hu ho, run_bind, ends]⟩

/-- What an event raises that begins the session of a user: what the end of the last one raises, or else what the
beginning of the next one does. -/
theorem handle_newcomer {event : IdentityEvent} (h : c.newcomer? event = some user) (remote : String → Remote) :
    (∃ f, c.cleared = .error f ∧ ((handle event remote).run c).1 = .error f ∧
      ((handle event remote).run c).2.SignedOut) ∨
    ∃ cache, c.cleared = .ok cache ∧ ((handle event remote).run c).2.owner = some user ∧
      ((handle event remote).run c).1 = (fun _ => ()) <$> opening user (remote user) cache := by
  cases hc : c.cleared with
  | error f =>
    obtain ⟨hk, hu, ho⟩ := newcomer?_eq_some.1 h
    obtain ⟨log, state, ends⟩ := c.endSession_eq
    have signedOut := c.endSession_signedOut
    rw [handle_signIn hk hu ho, run_bind]
    rw [ends, hc] at signedOut ⊢
    exact .inl ⟨f, rfl, rfl, signedOut⟩
  | ok cache =>
    obtain ⟨log, state, begins⟩ := handle_begins h hc remote
    rw [begins]
    refine .inr ⟨cache, rfl, ?_, beginSession_result _ user (remote user)⟩
    obtain ⟨r, backend, plan, cache', log', hb, -⟩ :=
      beginSession_frame { c.ended with cache, log, state } user (remote user)
    rw [hb]

/-- A session that can make a plan of what it reads begins with it, even if the plan cannot be saved. -/
theorem handle_reads {event : IdentityEvent} (h : c.newcomer? event = some user) (remote : String → Remote)
    {cache : Option Cache} (hc : c.cleared = .ok cache) (connected : (remote user).connected = .ok ())
    (read : reading user (remote user) cache = .ok p) :
    ∃ r cache log state, (handle event remote).run c =
      (r, { c.ended with owner := some user, backend := some user, plan := p, cache, log, state }) := by
  obtain ⟨log, state, begins⟩ := handle_begins h hc remote
  obtain ⟨log', hr⟩ := beginSession_connected { c.ended with cache, log, state } user connected
  dsimp only at hr
  rw [read] at hr
  obtain ⟨r, cache', log'', hs, -⟩ := saveCache_frame { c.ended with
    owner := some user, backend := some user, plan := p, cache := visited user (remote user) cache, log := log', state }
  exact ⟨r, cache', log'', state, begins.trans (hr.trans hs)⟩

/-- Any other event changes nothing or ends the session. -/
theorem handle_other {event : IdentityEvent} (h : c.newcomer? event = none) (remote : String → Remote) :
    ((handle event remote).run c).2 = c ∨ (handle event remote).run c = endSession.run c := by
  by_cases hk : event.kind = .signedOut
  · exact .inr (by simp [handle, hk])
  · left
    cases hu : event.user with
    | none => simp [handle, hk, hu]
    | some user =>
      have own : c.owner = some user := by
        by_contra ho
        rw [newcomer?_eq_some.2 ⟨hk, hu, ho⟩] at h
        cases h
      simp [handle, hk, hu, run_bind, own]

/-- An event of the owner changes nothing. -/
theorem handle_owner {event : IdentityEvent} (hk : event.kind ≠ .signedOut) (hu : event.user = some user)
    (ho : c.owner = some user) (remote : String → Remote) : (handle event remote).run c = (.ok (), c) := by
  simp [handle, hk, hu, run_bind, ho]

theorem receive_eq {raw : Json} {event : IdentityEvent} (h : IdentityEvent.ofJson raw = .ok event)
    (remote : String → Remote) : (receive raw remote).run c = (handle event remote).run c := by
  simp [receive, run_bind, h]

/-- What raises and leaves neither the old state nor nobody signed in is the beginning of a session. -/
theorem begins_of_raised {raw : Json} {remote : String → Remote} {r : Except Fault Unit × Coordinator}
    (hr : (receive raw remote).run c = r) (hf : r.1 = .error f) (hn : ¬ (r.2 = c ∨ r.2.SignedOut)) :
    ∃ event user cache, IdentityEvent.ofJson raw = .ok event ∧ c.newcomer? event = some user ∧
      c.cleared = .ok cache ∧
      opening user (remote user) cache = .error f ∧ r.2.owner = some user := by
  cases hraw : IdentityEvent.ofJson raw with
  | error g =>
    have same : r.2 = c := by rw [← hr]; simp [receive, run_bind, hraw]
    exact absurd (.inl same) hn
  | ok event =>
    rw [receive_eq hraw] at hr
    subst hr
    cases hnew : c.newcomer? event with
    | none =>
      refine absurd ((handle_other hnew remote).imp_right fun ends => ?_) hn
      rw [ends]
      exact c.endSession_signedOut
    | some user =>
      rcases handle_newcomer hnew remote with ⟨-, -, -, signedOut⟩ | ⟨cache, hc, ho, hopen⟩
      · exact absurd (.inr signedOut) hn
      · refine ⟨event, user, cache, rfl, hnew, hc, ?_, ho⟩
        rw [hf] at hopen
        cases hp : opening user (remote user) cache with
        | ok p => rw [hp] at hopen; cases hopen
        | error g => rw [hp] at hopen; cases hopen; rfl

/-- A session that cannot begin raises, and its user is the owner. -/
theorem raised_of_begins {event : IdentityEvent} (hnew : c.newcomer? event = some user) {remote : String → Remote}
    {cache : Option Cache} (hc : c.cleared = .ok cache) (hopen : opening user (remote user) cache = .error f) :
    ((handle event remote).run c).1 = .error f ∧ ((handle event remote).run c).2.owner = some user := by
  rcases handle_newcomer hnew remote with ⟨g, hg, -⟩ | ⟨cache', hc', howner, hopen'⟩
  · rw [hg] at hc; cases hc
  · obtain rfl : cache' = cache := Except.ok.inj (hc'.symm.trans hc)
    rw [hopen] at hopen'
    exact ⟨hopen', howner⟩

/-- Take any coordinator, any value as event, and any collaborators. An event that raises leaves the coordinator as
it was or signed out, except just if it begins the session of a user, the session of the owner has ended, and the
new session cannot begin. Once signed out, the next sign-in of anybody begins a session. But a session that could
not begin has its user as owner, and the same event is then taken for one of the owner and does nothing. -/
theorem receive_half_begun_iff (c : Coordinator) (raw : Json) (remote : String → Remote) :
    let r := (receive raw remote).run c
    (∀ f, (r.1 = .error f ∧ ¬ (r.2 = c ∨ r.2.SignedOut)) ↔
      ∃ event user cache, IdentityEvent.ofJson raw = .ok event ∧ c.newcomer? event = some user ∧
        c.cleared = .ok cache ∧
        opening user (remote user) cache = .error f) ∧
    (r.2.SignedOut → ∀ event user, event.kind ≠ .signedOut → event.user = some user → ∀ remote,
      (handle event remote).run r.2 = (do endSession; beginSession user (remote user)).run r.2) ∧
    (∀ f, r.1 = .error f → ¬ (r.2 = c ∨ r.2.SignedOut) → ∃ user, r.2.owner = some user ∧
      ∀ remote, (receive raw remote).run r.2 = (.ok (), r.2)) := by
  intro r
  have hr : (receive raw remote).run c = r := rfl
  clear_value r
  refine ⟨fun f => ⟨?_, ?_⟩, fun signedOut event user hk hu remote => ?_, fun f hf hn => ?_⟩
  · rintro ⟨hf, hn⟩
    obtain ⟨event, user, cache, hraw, hnew, hc, hopen, -⟩ := begins_of_raised hr hf hn
    exact ⟨event, user, cache, hraw, hnew, hc, hopen⟩
  · rintro ⟨event, user, cache, hraw, hnew, hc, hopen⟩
    obtain ⟨-, -, ho⟩ := newcomer?_eq_some.1 hnew
    obtain ⟨raises, owner⟩ := raised_of_begins hnew hc hopen
    rw [← receive_eq hraw, hr] at raises owner
    refine ⟨raises, ?_⟩
    rintro (same | signedOut)
    · exact ho (same ▸ owner)
    · rw [signedOut.owner] at owner; cases owner
  · exact handle_signIn hk hu (by rw [signedOut.owner]; nofun)
  · obtain ⟨event, user, cache, hraw, hnew, -, -, howner⟩ := begins_of_raised hr hf hn
    obtain ⟨hk, hu, -⟩ := newcomer?_eq_some.1 hnew
    exact ⟨user, howner, fun remote => (receive_eq hraw remote).trans (handle_owner hk hu howner remote)⟩

/-- A user signs in while no backend is to be had. The event raises, but the user is the owner of a session without
backend from then on, and when the backend is there again the same event does nothing. -/
theorem half_begun_without_backend :
    let arrival : Json := .obj [("user_id", .str "user-a"), ("event_kind", .str "signedIn")]
    let unavailable : Fault := .access (.unavailable "no backend")
    let r := (receive arrival fun _ => { connected := .error unavailable }).run (.new 0.4 none)
    let s := (receive arrival fun _ => {}).run r.2
    r.1 = .error unavailable ∧ ¬ (r.2 = .new 0.4 none ∨ r.2.SignedOut) ∧ r.2.owner = some "user-a" ∧
      r.2.backend = none ∧
      s.1 = .ok () ∧ s.2.backend = none := by
  intro arrival unavailable r s
  obtain ⟨event, parsed⟩ := ok_of_isSome (x := IdentityEvent.ofJson arrival) (by decide +kernel)
  have read : (IdentityEvent.ofJson arrival).toOption = some { user := some "user-a", kind := .signedIn } := by
    decide +kernel
  obtain rfl : event = { user := some "user-a", kind := .signedIn } := by
    rw [parsed] at read; exact Option.some.inj read
  have hr : r = (handle _ fun _ => { connected := .error unavailable }).run (.new 0.4 none) := receive_eq parsed _
  have owner : r.2.owner = some "user-a" := by rw [hr]; rfl
  have hs : s = (.ok (), r.2) := (receive_eq parsed _).trans (handle_owner (by decide) rfl owner _)
  refine ⟨by rw [hr]; rfl, ?_, owner, by rw [hr]; rfl, by rw [hs], by rw [hs, hr]; rfl⟩
  rintro (same | signedOut)
  · rw [same] at owner
    cases owner
  · rw [signedOut.owner] at owner
    cases owner

end Coordinator
end DegreePlan.Sync
