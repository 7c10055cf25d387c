import DegreePlan.Proofs.Listing
import DegreePlan.Proofs.Sync.Opening
import DegreePlan.Proofs.Sync.Recovery
import DegreePlan.Proofs.Sync.Replay
import DegreePlan.Proofs.Sync.Written

/-!
# The cache as a mirror of the plan

While somebody is signed in, their file in the cache holds the plan as it is, however writes nest and
end. So a restart without a remote begins with the same listing. No file is left of anybody who has
left.
-/

namespace DegreePlan

namespace Cache

/-- No file is left of those who have left, unless it is the file of the owner too. -/
structure Clean (left : List String) (owner : Option String) (d : Cache) : Prop where
  free : d.Free
  gone : ∀ user ∈ left, (∀ o ∈ owner, fileName o ≠ fileName user) → d.file? user = none

/-- The file of the owner holds the plan if it can be written, and no other file is left. -/
structure Backs (left : List String) (owner : Option String) (p : Plan) (d : Cache) :
    Prop extends d.Clean left owner where
  saved : p.Written → ∀ user ∈ owner, ∃ json, p.toJson = .ok json ∧
    d.file? user = some (.plan (userKey user) json)

end Cache

namespace Sync

open Plan

/-- A plan that is written down is an object, so an empty one is found again as it was. -/
theorem orElse_toJson {p : Plan} {json : Json} (h : p.toJson = .ok json) : json.orElse (.obj []) = json := by
  simp only [toJson, bind_eq_ok, pure_eq_ok] at h
  obtain ⟨l, -, pairs, -, rfl⟩ := h
  cases pairs <;> rfl

namespace Coordinator

variable {left : List String} {bs : List Batch} {c d : Coordinator} {cache : Cache} {p : Plan} {json : Json}

/-- A save puts a plan that can be written into the file of the owner. -/
theorem savedCache_backs (hc : c.cache = some cache) (clean : cache.Clean left c.owner) :
    ∃ e, c.savedCache = some e ∧ e.Backs left c.owner c.plan := by
  cases ho : c.owner with
  | none => exact ⟨cache, by rw [savedCache_unsaved c (.inr ho), hc], ho ▸ clean, fun _ => nofun⟩
  | some user =>
    unfold savedCache
    rw [hc, ho]
    cases filed : c.plan.filed with
    | error f =>
      refine ⟨cache, rfl, ho ▸ clean, fun ⟨json, exported, written⟩ => ?_⟩
      cases filed.symm.trans (filed_of_isWritable exported written)
    | ok semesters =>
      obtain ⟨free, others⟩ := Cache.save_frame clean.free user semesters
      refine ⟨_, rfl, ⟨free, fun u hu hne => ?_⟩, fun ⟨json, exported, written⟩ u hu => ?_⟩
      · exact (others u (hne user rfl).symm).trans (clean.gone u hu (ho ▸ hne))
      · obtain rfl : user = u := Option.some.inj hu
        obtain rfl : semesters = json := Except.ok.inj (filed.symm.trans (filed_of_isWritable exported written))
        obtain ⟨e, saves, -, file, -⟩ := Cache.save_ok clean.free user written
        exact ⟨semesters, exported, by rw [saves]; exact file⟩

/-- The plan and all to which a write may go back can be recovered, and the cache holds the plan if it can be written.
Nobody in `left` has a file, unless they own the session. -/
structure Backed (left : List String) (writing : List Batch) (c : Coordinator) : Prop where
  plan : Recoverable c.plan
  cache : ∃ d, c.cache = some d ∧ d.Backs left c.owner c.plan
  queued : ∀ b ∈ c.queued, Taken b.snapshot
  writing : ∀ b ∈ writing, Taken b.snapshot

namespace Backed

/-- The plan and its file stay as they are. -/
theorem rest (h : c.Backed left bs) (hp : d.plan = c.plan) (hc : d.cache = c.cache) (ho : d.owner = c.owner)
    (hq : ∀ b ∈ d.queued, Taken b.snapshot) : d.Backed left bs where
  plan := hp ▸ h.plan
  cache := by rw [hp, hc, ho]; exact h.cache
  queued := hq
  writing := h.writing

/-- The plan becomes another one, which is saved. -/
theorem goto (h : c.Backed left bs) (hp : Recoverable p) (hd : d.plan = p)
    (hc : d.cache = savedCache { c with plan := p }) (ho : d.owner = c.owner)
    (hq : ∀ b ∈ d.queued, Taken b.snapshot) : d.Backed left bs := by
  obtain ⟨cache, hcache, backs⟩ := h.cache
  obtain ⟨e, he, backs⟩ := savedCache_backs (c := { c with plan := p }) hcache backs.toClean
  exact ⟨hd ▸ hp, ⟨e, hc.trans he, by rw [ho, hd]; exact backs⟩, hq, h.writing⟩

/-! ### Operations -/

/-- A mutation that does something is saved, and the batch goes back to a plan that was recoverable. -/
theorem apply (h : c.Backed left bs) {m : Mutation} (hm : m.Plain) (ht : m.Legible)
    (averaged : Averaged ((Coordinator.apply m).run c).2.plan) : ((Coordinator.apply m).run c).2.Backed left bs := by
  rcases c.apply_cases m with ⟨f, state, hr⟩ | ⟨e, plan, state, made, nothing, hr⟩ |
    ⟨snapshot, e, plan, -, hs, made, -, r, cache, log, state, hr, hcache⟩ <;> rw [hr] at averaged ⊢
  · exact h.rest rfl rfl rfl h.queued
  · exact h.rest ((Mutation.done made).eq_of_isEmpty nothing) rfl rfl h.queued
  · have hplan : (c.changed snapshot m e plan).plan = plan := c.changed_plan snapshot m e plan
    have recoverable : Recoverable plan := h.plan.mutate hm ht made (hplan ▸ averaged)
    refine h.goto recoverable hplan hcache (c.changed_owner snapshot m e plan) fun b' hb' => ?_
    obtain ⟨-, -, -, b, hq, hb⟩ := enqueue_frame { c with state := .applying, plan } snapshot m e
    cases ((restartTimer_queued _).trans hq).symm.trans hb'
    rcases hb with waited | ⟨-, rfl⟩
    · exact h.queued b waited
    · exact ⟨c.plan, h.plan, hs⟩

theorem stopTimer (h : c.Backed left bs) : c.stopTimer.Backed left bs :=
  h.rest (stopTimer_plan c) (stopTimer_cache c) (stopTimer_owner c) (by rw [stopTimer_queued]; exact h.queued)

theorem beginFlush (h : c.Backed left bs) : (Coordinator.beginFlush.run c).2.Backed left bs ∧
    ∀ b write, (Coordinator.beginFlush.run c).1 = .ok (some (b, write)) → Taken b.snapshot := by
  rcases c.beginFlush_cases with ⟨-, hr⟩ | ⟨b, hb, ⟨f, hr, -⟩ | ⟨ps, gone, -, -, hr⟩⟩ <;> rw [hr]
  · exact ⟨h.stopTimer, nofun⟩
  · exact ⟨h.stopTimer.rest rfl rfl rfl nofun, nofun⟩
  · refine ⟨h.stopTimer.rest rfl rfl rfl nofun, fun b' write hw => ?_⟩
    cases hw
    exact h.queued b hb

/-- A write that ends keeps the plan, or goes back to a plan that was recoverable and saves it. -/
theorem finishFlush (h : c.Backed left bs) {b : Batch} (hb : b ∈ bs) (outcome : Option String) :
    ((Coordinator.finishFlush b outcome).run c).2.Backed left bs := by
  rcases c.finishFlush_cases b outcome with ⟨-, f, hr⟩ |
    ⟨rest, -, ⟨-, log, state, hr⟩ | ⟨-, -, state, hr⟩ | ⟨-, -, cause, -, ⟨f, -, hr⟩ | ⟨log, hr⟩⟩ |
      ⟨-, -, cause, -, ⟨f, -, hr⟩ | ⟨plan, hplan, r, cache, log, lastFailure, inFlight, lastOutcome,
        state, hr, -, -, hcache, -⟩⟩⟩ <;>
    rw [hr]
  · exact h
  · exact h.rest rfl rfl rfl h.queued
  · exact h.rest rfl rfl rfl h.queued
  · exact h.rest rfl rfl rfl h.queued
  · obtain ⟨-, hp, b₀, hq, -⟩ := requeue_frame ({ c with inFlight := rest, log }.mark b.serial .pending) b
    refine h.rest hp (requeue_cache _ b) (requeue_owner _ b) fun b' hb' => ?_
    cases hq.symm.trans hb'
    exact h.writing b hb
  · exact h.rest rfl rfl rfl h.queued
  · exact h.goto ((h.writing b hb).restore hplan) rfl hcache rfl h.queued

theorem subset {ds : List Batch} (h : c.Backed left bs) (hs : ds ⊆ bs) : c.Backed left ds :=
  { h with writing := fun b hb => h.writing b (hs hb) }

end Backed

theorem upheld_backed (left : List String) : Upheld (Backed left) where
  fewer := Backed.subset
  flush h := h.beginFlush.1
  taken h hr := { h.beginFlush.1 with writing := List.forall_mem_cons.2 ⟨h.beginFlush.2 _ _ hr, h.writing⟩ }
  finish outcome h hb := h.finishFlush hb outcome

/-! ## Sessions -/

/-- What a session begins with can be had, and it was exported or is nothing at all. -/
def Loads (c : Coordinator) (event : IdentityEvent) (remote : Remote) : Prop :=
  ∀ user, c.newcomer? event = some user → remote.connected = .ok () ∧ ∃ cache data, c.cleared = .ok cache ∧
    found user remote cache = .ok data ∧ (data.isBlank ∨ Exported data)

variable {user : String} {remote : Remote} {event : IdentityEvent} {data : Json}

/-- The file of the owner is gone when the session has ended, and no file came back. -/
theorem Backed.cleared (h : c.Backed left bs) :
    ∃ cache, c.cleared = .ok (some cache) ∧ cache.Free ∧ ∀ user ∈ left, cache.file? user = none := by
  obtain ⟨d, hd, backs⟩ := h.cache
  obtain ⟨cache, hc, isSome, files⟩ := cleared_ok (c := c) fun e he => by
    rw [hd] at he
    cases he
    exact backs.free
  rw [hd] at isSome
  obtain ⟨e, rfl⟩ := Option.isSome_iff_exists.1 isSome
  obtain ⟨free, -, kept⟩ := files e rfl
  refine ⟨e, hc, free, fun user hu => ?_⟩
  rw [kept user, Coordinator.kept]
  split
  · rfl
  · next other =>
    rw [hd, Option.bind_some]
    exact backs.gone user hu fun o ho same => other (by rw [ho]; exact congrArg some same)

/-- What is exported or nothing at all makes a recoverable plan. -/
theorem readPlan_recoverable (user : String) (h : data.isBlank ∨ Exported data) :
    ∃ q, readPlan user data = .ok q ∧ Recoverable q := by
  rcases h with blank | exported
  · exact ⟨_, if_pos blank, recoverable_empty (some user)⟩
  · obtain ⟨q, load, -, recoverable⟩ := exported.load { owner := some user }
    obtain ⟨r, read, -, semesters⟩ := readPlan_of_load load
    exact ⟨r, read, recoverable.of_perm (.of_eq semesters)⟩

/-- A plan that was written down is read with the same listing, and it can be written again if it could be written. -/
theorem readPlan_listing (user : String) (hp : Recoverable p) (hj : p.toJson = .ok json) :
    ∃ q, readPlan user json = .ok q ∧ Recoverable q ∧ p.SameListing q ∧ (p.Written → q.Written) := by
  obtain ⟨q, load, -, recoverable, same, written⟩ := hp.recovers hj { owner := some user }
  obtain ⟨r, read, -, semesters⟩ := readPlan_of_load load
  refine ⟨r, read, recoverable.of_perm (.of_eq semesters), ?_, fun hw => (written hw).of_perm (.of_eq semesters)⟩
  rw [sameListing_iff] at same ⊢
  rwa [semesters]

/-- Where the backend holds nothing, the cache is read. -/
theorem found_cached (nothing : remote.data.isBlank = true) (loaded : (cache.load user).result = .ok (some data)) :
    found user remote (some cache) = .ok data := by
  rw [found, if_pos nothing, cached, loaded]
  rfl

theorem reading_cached (nothing : remote.data.isBlank = true) (loaded : (cache.load user).result = .ok (some data)) :
    reading user remote (some cache) = readPlan user data := by
  rw [reading, found_cached nothing loaded, ok_bind]

theorem visited_clean (user : String) (remote : Remote) (free : cache.Free)
    (gone : ∀ u ∈ left, cache.file? u = none) (owner : Option String) :
    ∃ e, visited user remote (some cache) = some e ∧ e.Clean left owner := by
  obtain ⟨e, he⟩ : ∃ e, visited user remote (some cache) = some e := by
    unfold visited
    split <;> exact ⟨_, rfl⟩
  obtain ⟨free, absent⟩ := visited_files remote (fun d hd => by cases hd; exact free) e he
  exact ⟨e, he, free, fun u hu _ => absent u fun d hd => by cases hd; exact gone u hu⟩

/-- A session that begins with a plan has it in the cache, and nothing is raised if the plan can be written. -/
theorem beginSession_backs (hc : c.cache = some cache) (free : cache.Free) (gone : ∀ u ∈ left, cache.file? u = none)
    (connected : remote.connected = .ok ()) (read : reading user remote c.cache = .ok p) :
    ∃ r e log, (beginSession user remote).run c =
      (r, { c with owner := some user, backend := some user, plan := p, cache := some e, log }) ∧
        e.Backs left (some user) p ∧ (p.Written → r = .ok ()) := by
  obtain ⟨log, hr⟩ := c.beginSession_connected user connected
  obtain ⟨e, he, clean⟩ := visited_clean user remote free gone (some user)
  rw [read, hc, he] at hr
  obtain ⟨r, cache', log', hs, hcache, hinges⟩ := saveCache_frame
    { c with owner := some user, backend := some user, plan := p, cache := some e, log }
  obtain ⟨e', he', backs⟩ := savedCache_backs
    (c := { c with owner := some user, backend := some user, plan := p, cache := some e, log }) rfl clean
  rw [hcache, he'] at hs
  refine ⟨r, e', log', hr.trans hs, backs, fun written => ?_⟩
  obtain ⟨⟨⟩, rfl⟩ := hinges.ok (.inr written)
  rfl

/-- A session that can make a plan of what it reads begins with it and has it in the cache. -/
theorem signIn_backs (hc : c.cleared = .ok (some cache)) (free : cache.Free)
    (gone : ∀ u ∈ left, cache.file? u = none) (hnew : c.newcomer? event = some user)
    (connected : remote.connected = .ok ()) (read : reading user remote (some cache) = .ok p) :
    ∃ r e log state, (handle event fun _ => remote).run c =
      (r, { c.ended with owner := some user, backend := some user, plan := p, cache := some e, log, state }) ∧
        e.Backs left (some user) p ∧ (p.Written → r = .ok ()) := by
  obtain ⟨log, state, begins⟩ := handle_begins hnew hc fun _ => remote
  obtain ⟨r, e, log', hr, backs⟩ := beginSession_backs
    (c := { c.ended with cache := some cache, log, state }) rfl free gone connected read
  exact ⟨r, e, log', state, begins.trans hr, backs⟩

/-- A session ends with an empty plan and without the file of its owner, and begins with a plan that is saved. -/
theorem Backed.handle (h : c.Backed left bs) (loads : c.Loads event remote) :
    ((Coordinator.handle event fun _ => remote).run c).2.Backed left bs := by
  obtain ⟨cache, hcleared, free, gone⟩ := h.cleared
  cases hnew : c.newcomer? event with
  | none =>
    rcases handle_other hnew fun _ => remote with same | out
    · rw [same]; exact h
    · obtain ⟨log, state, ends⟩ := c.endSession_eq
      rw [out, ends, hcleared]
      exact ⟨recoverable_empty none, ⟨cache, rfl, ⟨free, fun u hu _ => gone u hu⟩, fun _ => nofun⟩,
        nofun, h.writing⟩
  | some user =>
    obtain ⟨connected, cache', data, hc', hfound, known⟩ := loads user hnew
    obtain rfl : some cache = cache' := Except.ok.inj (hcleared.symm.trans hc')
    obtain ⟨p, hp, recoverable⟩ := readPlan_recoverable user known
    have read : reading user remote (some cache) = .ok p := by rw [reading, hfound, ok_bind, hp]
    obtain ⟨r, e, log, state, hr, backs, -⟩ := signIn_backs hcleared free gone hnew connected read
    rw [hr]
    exact ⟨recoverable, ⟨e, rfl, backs⟩, nofun, h.writing⟩

/-- The file of the owner gives a plan that can be written, also to a coordinator that starts without a remote. -/
theorem Backed.recovers (h : c.Backed left bs) (written : c.plan.Written) (ho : c.owner = some user) :
    ∃ d json, c.cache = some d ∧ (d.load user).result = .ok (some json) ∧
      (∀ base : Plan, ∃ q, base.load json = .ok q ∧ c.plan.SameListing q) ∧
      ∀ quiet, ∀ {event : IdentityEvent} {remote : Remote}, event.kind ≠ .signedOut → event.user = some user →
        remote.connected = .ok () → remote.data.isBlank = true →
        let r := (Coordinator.handle event fun _ => remote).run (.new quiet (some d))
        r.1 = .ok () ∧ r.2.owner = some user ∧ c.plan.SameListing r.2.plan := by
  obtain ⟨d, hd, backs⟩ := h.cache
  obtain ⟨json, hj, file⟩ := backs.saved written user ho
  have loaded : (d.load user).result = .ok (some json) := by rw [Cache.load_saved file, orElse_toJson hj]
  refine ⟨d, json, hd, loaded, fun base => ?_, fun quiet event remote hk hu connected nothing => ?_⟩
  · obtain ⟨q, hq, -, -, same, -⟩ := h.plan.recovers hj base
    exact ⟨q, hq, same⟩
  · obtain ⟨q, hq, -, same, readWritten⟩ := readPlan_listing user h.plan hj
    have read : reading user remote (some d) = .ok q := (reading_cached nothing loaded).trans hq
    -- nobody was signed in, so the file is still there when the session begins
    have cleared : (Coordinator.new quiet (some d)).cleared = .ok (some d) := rfl
    have hnew : (Coordinator.new quiet (some d)).newcomer? event = some user :=
      newcomer?_eq_some.2 ⟨hk, hu, by nofun⟩
    obtain ⟨r, e, log, state, hr, -, begins⟩ :=
      signIn_backs cleared backs.free (List.forall_mem_nil _) hnew connected read
    rw [hr]
    exact ⟨begins (readWritten written), rfl, same⟩

/-- The owner has the only file that matters, so their name can be watched from now on. -/
theorem Backed.watch (h : c.Backed [] bs) (ho : c.owner = some user) : c.Backed [user] bs := by
  obtain ⟨d, hd, backs⟩ := h.cache
  refine { h with cache := ⟨d, hd, { backs with gone := fun u hu other => ?_ }⟩ }
  obtain rfl := List.mem_singleton.1 hu
  exact absurd rfl (other u ho)

end Coordinator

/-! ## Runs -/

/-- Courses that are added have ids that can be looked up, and they can be read back. -/
def Act.Proper : Act → Prop
  | .mutate m => m.Plain ∧ m.Legible
  | .retry failure => ∀ m ∈ failure.mutations, m.Plain ∧ m.Legible
  | _ => True

instance : DecidablePred Act.Proper
  | .mutate m => inferInstanceAs (Decidable (m.Plain ∧ m.Legible))
  | .retry failure => inferInstanceAs (Decidable (∀ m ∈ failure.mutations, m.Plain ∧ m.Legible))
  | .flush | .expire | .reply .. | .finish _ | .close | .listen _ | .unlisten _ => instDecidableTrue

namespace World

open Coordinator

variable {left : List String} {w : World}

/-- What may happen: mutations keep the averages in range, and sessions begin with what was exported. -/
def Loading (w : World) : Event → Prop
  | .act a => a.Proper ∧ a.Makes Averaged w
  | .late _ => True
  | .identity event remote => w.coordinator.Loads event remote

theorem backed_act (hc : w.Counted) (h : w.Holds (Backed left)) {a : Act} (ha : a.Proper) (makes : a.Makes Averaged w) :
    (w.act a).1.Holds (Backed left) := by
  cases a with
  | mutate m => exact Backed.apply h ha.1 ha.2 makes
  | retry failure => exact retry_makes (fun _ m hm hd good => hd.apply (ha m hm).1 (ha m hm).2 good) _ h makes
  | flush | expire | reply | finish => exact (upheld_backed left).act hc h trivial
  | close => exact Backed.stopTimer h
  | listen fault => exact Backed.rest h rfl rfl rfl h.queued
  | unlisten i =>
    simp only [World.act]
    split
    · exact h
    · exact Backed.rest h rfl rfl rfl h.queued

theorem backed_step (hc : w.Counted) (h : w.Holds (Backed left)) {e : Event} (he : w.Loading e) :
    (w.step e).1.Holds (Backed left) := by
  cases e with
  | act a => exact backed_act hc h he.1 he.2
  | late a => exact (upheld_backed left).lateAct h a
  | identity event remote => exact (upheld_backed left).identify (Backed.handle h he)

theorem backed_new (quiet : Float) {cache : Cache} (free : cache.Free) :
    Holds (Backed []) { coordinator := .new quiet (some cache) } where
  plan := recoverable_empty none
  cache := ⟨cache, rfl, ⟨free, nofun⟩, fun _ => nofun⟩
  queued := nofun
  writing := nofun

/-- What a run of such events keeps. -/
theorem backed_run {v : World} (run : Runs Loading (fun w e => (w.step e).1) v w) (hc : v.Counted)
    (h : v.Holds (Backed left)) : w.Counted ∧ w.Holds (Backed left) :=
  run.keeps (P := fun w => w.Counted ∧ w.Holds (Backed left)) ⟨hc, h⟩ fun _ e ⟨hc, h⟩ he =>
    ⟨hc.step e, backed_step hc h he⟩

end World
end Sync
end DegreePlan
