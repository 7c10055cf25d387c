import DegreePlan.Proofs.Archive
import DegreePlan.Proofs.Sync.Orderly
import DegreePlan.Proofs.Sync.SignIn

/-!
# Coordinators with an archive

A coordinator whose backends write to an archive: every request either is carried out there or has no
effect. Whatever happens, every row names a term, and no user has two rows of one semester.
-/

namespace DegreePlan.Sync

open Plan Archive

/-! ## Requests that are carried out -/

/-- The archive after a request of a user, if it can be carried out. -/
def Call.perform (a : Archive) (user : String) : Call → Option Archive
  | .delete ids =>
    match a.delete user (.arr ids) with
    | (b, .ok _) => some b
    | (_, .error _) => none
  | .save payload => (a.save user payload).toOption.map (·.2)

/-- The rows after a request that is carried out. -/
inductive Performed (rows : List Row) : Call → List Row → Prop where
  | deleted {ids : List Json} {rows' : List Row} {n : Nat} (h : dropFrom ids rows = (rows', .ok n)) :
      Performed rows (.delete ids) rows'
  | saved {payload : Json} {r : Row} (h : Row.ofJson payload = .ok r) : Performed rows (.save payload) (putRow r rows)

/-- A request changes the rows of its user and no others. -/
theorem Call.perform_eq_some {a b : Archive} {user : String} {call : Call} (h : call.perform a user = some b) :
    Performed (a.rows user) call (b.rows user) ∧ ∀ other ≠ user, b.rows other = a.rows other := by
  cases call with
  | delete ids =>
    simp only [perform] at h
    split at h
    · next b' n hd =>
      cases h
      obtain ⟨⟨m, hm⟩, ho⟩ := delete_eq_ok hd
      exact ⟨.deleted hm, ho⟩
    · cases h
  | save payload =>
    simp only [perform] at h
    cases hs : a.save user payload with
    | error f => rw [hs] at h; cases h
    | ok q =>
      rw [hs] at h
      cases h
      obtain ⟨hr, hrows, ho⟩ := save_eq_ok hs
      exact ⟨hrows ▸ .saved hr, ho⟩

/-- Rows of a user: each of a semester of its own, and all of them name terms. -/
def TermedRows (rows : List Row) : Prop := (rows.map (·.id)).Nodup ∧ ∀ r ∈ rows, r.term.term?.isSome

instance (rows : List Row) : Decidable (TermedRows rows) := inferInstanceAs (Decidable (_ ∧ _))

theorem termed_of_users {a : Archive} (h : ∀ u ∈ a.users, TermedRows u.2) (user : String) :
    TermedRows (a.rows user) := by
  unfold rows
  cases hu : a.users.lookup user with
  | none => exact ⟨List.nodup_nil, nofun⟩
  | some rs =>
    obtain ⟨l, m, hl, -⟩ := List.lookup_eq_some_iff.1 hu
    exact h (user, rs) (by simp [hl])

theorem TermedRows.performed {rows rows' : List Row} (h : TermedRows rows) {call : Call}
    (hc : ∀ json, call = .save json → ∃ s : Semester, s.Dated ∧ s.toJson = .ok json)
    (hp : Performed rows call rows') : TermedRows rows' := by
  cases hp with
  | deleted hd =>
    refine ⟨ids_dropFrom hd ▸ h.1, fun r' hr' => ?_⟩
    obtain ⟨r, hr, ht⟩ := mem_dropFrom hd hr'
    rw [ht]; exact h.2 r hr
  | @saved payload r hr =>
    obtain ⟨s, hs, hj⟩ := hc payload rfl
    refine ⟨nodup_putRow h.1, fun x hx => ?_⟩
    rcases mem_putRow hx with rfl | hx
    · rw [(Row.ofJson_toJson hj hr).2.1]; exact hs
    · exact h.2 x hx

/-! ## A coordinator with its archive -/

/-- A world together with the archive that its backends write to. -/
structure Deployment where
  world : World
  archive : Archive

namespace Deployment

/-- The archive after an answer to a write. A request that was accepted was carried out; any other answer
means that it had no effect. -/
def answered (a : Archive) (fs : List Flight) (i : Nat) : Reply → Option Archive
  | .accepted =>
    match fs[i]?.bind Flight.call? with
    | some (user, call) => call.perform a user
    | none => some a
  | _ => some a

/-- The archive after an event, if there can be such an event. -/
def archive? (d : Deployment) : Event → Option Archive
  | .act (.reply i r) => answered d.archive d.world.flights i r
  | .late (.reply i r) => answered d.archive d.world.late i r
  | _ => some d.archive

/-- Lets something happen. -/
def step (d : Deployment) (e : Event) : Deployment :=
  { world := (d.world.step e).1, archive := (d.archive? e).getD d.archive }

/-- What the backend of a user offers. -/
def remote (d : Deployment) (user : String) : Remote := { stored := some (.ok (d.archive.document user)) }

/-- What a sign-in loads is what the archive holds for the user. -/
def Serves (d : Deployment) : Event → Prop
  | .identity event remote =>
    ∀ data, remote.stored = some (.ok data) → ∃ user, event.user = some user ∧ data = d.archive.document user
  | _ => True

/-- The deployments that there may be: a coordinator without cache on an archive whose rows name terms, as an
empty one or one that another coordinator left. -/
inductive Reachable : Deployment → Prop where
  | new (quiet : Float) {archive : Archive} (termed : ∀ user, TermedRows (archive.rows user)) :
      Reachable { world := { coordinator := .new quiet none }, archive }
  | step {d : Deployment} (h : Reachable d) (e : Event) (can : (d.archive? e).isSome) (serves : d.Serves e) :
      Reachable (d.step e)

theorem Reachable.world {d : Deployment} (h : Reachable d) : World.Reachable d.world := by
  induction h with
  | new quiet => exact .new quiet none
  | step _ e _ _ ih => exact ih.step e

end Deployment

/-! ## Rows name terms -/

/-- All semesters of the plan and of the snapshots name terms. -/
structure Coordinator.Termed (c : Coordinator) : Prop where
  uncached : c.cache = none
  plan : ∀ s ∈ c.plan.semesters, s.Dated
  queued : ∀ b ∈ c.queued, ∀ s ∈ b.snapshot.semesters, s.Dated

/-- All semesters that are saved and all that the write may go back to name terms. -/
structure Flight.Termed (f : Flight) : Prop where
  snapshot : ∀ s ∈ f.batch.snapshot.semesters, s.Dated
  saves : ∀ json, .save json ∈ f.left → ∃ s : Semester, s.Dated ∧ s.toJson = .ok json

namespace Coordinator

variable {c : Coordinator}

theorem dated_snapshot {p : Plan} {snapshot : Snapshot} (h : p.snapshot = .ok snapshot) :
    ∀ s ∈ snapshot.semesters, s.Dated := by
  obtain ⟨xs, hxs, rfl⟩ := snapshot_eq_ok.1 h
  obtain ⟨hd, rfl⟩ := ordered_eq_ok.1 hxs
  exact fun s hs => hd s (mem_sorted.1 hs)

theorem termed_apply (m : Mutation) : Keeps Termed (apply m) := by
  intro c h
  obtain ⟨stays, -, ⟨hp, hq⟩ | ⟨snapshot, e, b, hs, hm, -, hq, hb⟩⟩ := c.apply_made m
  · exact ⟨stays.cache h.uncached, hp ▸ h.plan, hq ▸ h.queued⟩
  · refine ⟨stays.cache h.uncached, (Mutation.done hm).shaped.dated h.plan, fun b' hb' => ?_⟩
    rw [hq] at hb'
    cases hb'
    rcases hb with hb | ⟨-, rfl⟩
    · exact h.queued b hb
    · exact dated_snapshot hs

theorem Termed.stopTimer (h : c.Termed) : c.stopTimer.Termed := by
  obtain ⟨h1, h2, h3⟩ := h
  exact ⟨by simpa using h1, by simpa using h2, by simpa using h3⟩

/-- The end of a write keeps the plan, goes back to its snapshot or lets it wait again. -/
theorem Termed.finishFlush (h : c.Termed) {b : Batch} (hb : ∀ s ∈ b.snapshot.semesters, s.Dated)
    (cause : Option String) : ((finishFlush b cause).run c).2.Termed := by
  obtain ⟨h1, h2, h3⟩ := h
  rcases c.finishFlush_cases b cause with ⟨-, f, hr⟩ | ⟨rest, -, ⟨-, log, state, hr⟩ | ⟨-, -, state, hr⟩ |
    ⟨-, -, _, -, ⟨f, -, hr⟩ | ⟨log, hr⟩⟩ |
    ⟨-, -, _, -, ⟨f, -, hr⟩ |
      ⟨plan, hplan, r, cache, log, lastFailure, inFlight, lastOutcome, state, hr, -, -, hn, -⟩⟩⟩
  all_goals rw [hr]
  · exact ⟨h1, h2, h3⟩
  · exact ⟨h1, h2, h3⟩
  · exact ⟨h1, h2, h3⟩
  · exact ⟨h1, h2, h3⟩
  · obtain ⟨stays, hp, b₀, hq, hb₀⟩ :=
      requeue_frame ({ c with inFlight := rest, log }.mark b.serial .pending) b
    refine ⟨stays.cache h1, ?_, fun b' hb' => ?_⟩
    · change ∀ s ∈ (requeue _ b).plan.semesters, s.Dated
      rw [hp]; exact h2
    · cases hq.symm.trans hb'
      exact hb
  · exact ⟨h1, h2, h3⟩
  · obtain ⟨-, rfl⟩ := restore_eq_ok.1 hplan
    exact ⟨hn.trans (savedCache_none _ h1), hb, h3⟩

end Coordinator
/-- Only semesters of the plan are saved. -/
theorem mem_payloads {p : Plan} {b : Batch} {ps : List Json} (h : Coordinator.payloads p b = .ok ps)
    {json : Json} (hj : json ∈ ps) : ∃ s ∈ p.semesters, s.toJson = .ok json := by
  simp only [Coordinator.payloads, bind_eq_ok] at h
  obtain ⟨ids, -, h⟩ := h
  obtain ⟨id, -, hid⟩ := mem_of_filterMapM h hj
  split at hid
  · next s hs =>
    simp only [bind_eq_ok, pure_eq_ok, Option.some.injEq] at hid
    obtain ⟨_, hs', rfl⟩ := hid
    exact ⟨s, (semester?_some hs).1, hs'⟩
  · cases hid

theorem save_mem_calls {w : Write} {json : Json} : .save json ∈ w.calls ↔ json ∈ w.payloads := by
  simp only [Write.calls, List.mem_append, List.mem_map, Call.save.injEq, exists_eq_right]
  split <;> simp

theorem delete_mem_calls {w : Write} {ids : List Json} (h : .delete ids ∈ w.calls) : ids = w.deleted := by
  simp only [Write.calls, List.mem_append, List.mem_map, reduceCtorEq, and_false, exists_false, or_false] at h
  split at h
  · cases h
  · exact Call.delete.inj (List.mem_singleton.1 h)

namespace Flight

theorem termed_start {p : Plan} {b : Batch} {w : Write} (hb : ∀ s ∈ b.snapshot.semesters, s.Dated)
    (hw : ∀ json ∈ w.payloads, ∃ s : Semester, s.Dated ∧ s.toJson = .ok json) : (start p b w).Termed := by
  unfold start
  split
  · exact ⟨hb, nofun⟩
  · exact ⟨hb, fun json hj => hw json (save_mem_calls.1 hj)⟩

theorem Termed.answer {f : Flight} (h : f.Termed) (r : Reply) : (f.answer r).Termed := by
  cases hl : f.left with
  | nil =>
    have same : f.answer r = f := by simp [Flight.answer, hl]
    rw [same]; exact h
  | cons call rest =>
    rcases answer_cons hl r with ⟨-, hans⟩ | ⟨-, cause, hans⟩ <;> rw [hans]
    · exact ⟨h.snapshot, fun json hj => h.saves json (by rw [hl]; exact List.mem_cons_of_mem call hj)⟩
    · exact ⟨h.snapshot, fun json hj => absurd hj List.not_mem_nil⟩

theorem termed_answered {fs : List Flight} (h : ∀ f ∈ fs, f.Termed) (i : Nat) (r : Reply) :
    ∀ f ∈ (World.answered fs i r).1, f.Termed := by
  intro f hf
  unfold World.answered at hf
  split at hf
  · exact h f hf
  · next g hg =>
    rcases List.mem_or_eq_of_mem_set hf with hf | rfl
    · exact h f hf
    · exact (h g (List.mem_of_getElem? hg)).answer r

theorem call?_eq_some {f : Flight} {user : String} {call : Call} (h : f.call? = some (user, call)) :
    f.backend = some user ∧ call ∈ f.left := by
  unfold call? at h
  split at h
  · next hu hl => cases h; exact ⟨hu, by simp [hl]⟩
  · cases h

end Flight

namespace Deployment

/-- All semesters name terms wherever they are. -/
structure Termed (d : Deployment) : Prop where
  coordinator : d.world.coordinator.Termed
  flights : ∀ f ∈ d.world.flights, f.Termed
  late : ∀ f ∈ d.world.late, f.Termed
  rows : ∀ user, TermedRows (d.archive.rows user)

variable {d : Deployment}

theorem termedRows_answered {a b : Archive} {fs : List Flight} (h : ∀ user, TermedRows (a.rows user))
    (hf : ∀ f ∈ fs, f.Termed) {i : Nat} {r : Reply} (hb : answered a fs i r = some b) (user : String) :
    TermedRows (b.rows user) := by
  cases r with
  | accepted =>
    simp only [answered] at hb
    split at hb
    · next other call hcall =>
      obtain ⟨f, hfi, hc⟩ := Option.bind_eq_some_iff.1 hcall
      obtain ⟨-, hmem⟩ := Flight.call?_eq_some hc
      obtain ⟨hp, ho⟩ := Call.perform_eq_some hb
      by_cases hu : user = other
      · subst hu
        exact (h user).performed (fun json hj => (hf f (List.mem_of_getElem? hfi)).saves json (hj ▸ hmem)) hp
      · rw [ho user hu]; exact h user
    · cases hb; exact h user
  | rejected | failed => cases hb; exact h user

theorem Termed.launch (h : d.Termed) {w : World} (hc : w.coordinator.Termed) (hf : ∀ f ∈ w.flights, f.Termed)
    (hl : ∀ f ∈ w.late, f.Termed) : Termed { world := w.launch.1, archive := d.archive } := by
  unfold World.launch
  rcases w.coordinator.beginFlush_cases with ⟨-, hr⟩ |
    ⟨b, hb, ⟨f, hr, -⟩ | ⟨ps, gone, hps, -, hr⟩⟩ <;> rw [hr]
  · exact ⟨hc.stopTimer, hf, hl, h.rows⟩
  · exact ⟨⟨hc.stopTimer.uncached, hc.stopTimer.plan, nofun⟩, hf, hl, h.rows⟩
  · refine ⟨⟨hc.stopTimer.uncached, hc.stopTimer.plan, nofun⟩, fun g hg => ?_, hl, h.rows⟩
    rcases List.mem_append.1 hg with hg | hg
    · exact hf g hg
    · rw [List.mem_singleton.1 hg]
      refine Flight.termed_start (hc.queued b hb) fun json hj => ?_
      obtain ⟨s, hs, hj⟩ := mem_payloads hps hj
      exact ⟨s, hc.plan s hs, hj⟩

/-- What a sign-in loads names terms. -/
theorem Termed.handle (h : d.Termed) {event : IdentityEvent} {remote : Remote}
    (serves : d.Serves (.identity event remote)) :
    ((Coordinator.handle event fun _ => remote).run d.world.coordinator).2.Termed := by
  obtain ⟨huncached, ⟨hq, hp⟩ | ⟨hq, hp⟩⟩ := Coordinator.handle_uncached h.coordinator.uncached event remote
  · exact ⟨huncached, hp ▸ h.coordinator.plan, hq ▸ h.coordinator.queued⟩
  refine ⟨huncached, ?_, by rw [hq]; nofun⟩
  rcases hp with hp | ⟨user, hu, hl⟩
  · rw [hp]; nofun
  generalize ((Coordinator.handle event fun _ => remote).run d.world.coordinator).2.plan = p at hl ⊢
  unfold Remote.data at hl
  split at hl
  · next data hdata =>
    obtain ⟨other, ho, rfl⟩ := serves data hdata
    obtain rfl : other = user := Option.some.inj (ho.symm.trans hu)
    have rows := h.rows other
    intro s hs
    obtain ⟨-, r, hr, -, ht⟩ := (load_rows rows.1 (recordsOf_document _ _) hl).2 s hs
    rw [Semester.Dated, ht]
    exact rows.2 r hr
  · cases hl

/-- Whatever happens, all semesters name terms. -/
theorem Termed.step (h : d.Termed) {e : Event} (can : (d.archive? e).isSome) (serves : d.Serves e) :
    (d.step e).Termed := by
  obtain ⟨archive, harchive⟩ := Option.isSome_iff_exists.1 can
  simp only [Deployment.step, harchive, Option.getD_some]
  have drop {fs : List Flight} (hf : ∀ f ∈ fs, f.Termed) (i : Nat) : ∀ f ∈ fs.eraseIdx i, f.Termed :=
    fun f hm => hf f (List.mem_of_mem_eraseIdx hm)
  cases e with
  | identity event remote =>
    cases harchive
    have hc := h.handle serves
    simp only [World.step, World.identify]
    split
    · exact ⟨hc, h.flights, h.late, h.rows⟩
    · exact ⟨hc, by simp, List.forall_mem_append.2 ⟨h.late, h.flights⟩, h.rows⟩
  | late a =>
    cases a with
    | reply i r =>
      exact ⟨h.coordinator, h.flights, Flight.termed_answered h.late i r,
        termedRows_answered h.rows h.late harchive⟩
    | finish i =>
      cases harchive
      simp only [World.step, World.lateAct]
      split
      · exact h
      · next f hf =>
        exact ⟨h.coordinator.finishFlush (h.late f (World.ready?_mem hf).1).snapshot _, h.flights,
          drop h.late i, h.rows⟩
  | act a =>
    cases a with
    | mutate m => cases harchive; exact ⟨Coordinator.termed_apply m _ h.coordinator, h.flights, h.late, h.rows⟩
    | retry failure =>
      cases harchive
      exact ⟨Coordinator.retry_keeps (fun m _ => Coordinator.termed_apply m) _ h.coordinator, h.flights,
        h.late, h.rows⟩
    | flush => cases harchive; exact h.launch h.coordinator h.flights h.late
    | expire =>
      cases harchive
      simp only [World.step]
      obtain ⟨timers, -, he⟩ | he := d.world.expire_cases <;> rw [he]
      · exact h.launch ⟨h.coordinator.uncached, h.coordinator.plan, h.coordinator.queued⟩ h.flights h.late
      · exact h
    | reply i r =>
      exact ⟨h.coordinator, Flight.termed_answered h.flights i r, h.late,
        termedRows_answered h.rows h.flights harchive⟩
    | finish i =>
      cases harchive
      simp only [World.step, World.act]
      split
      · exact h
      · next f hf =>
        exact ⟨h.coordinator.finishFlush (h.flights f (World.ready?_mem hf).1).snapshot _, drop h.flights i,
          h.late, h.rows⟩
    | close => cases harchive; exact ⟨h.coordinator.stopTimer, h.flights, h.late, h.rows⟩
    | listen fault =>
      cases harchive
      exact ⟨⟨h.coordinator.uncached, h.coordinator.plan, h.coordinator.queued⟩, h.flights, h.late, h.rows⟩
    | unlisten i =>
      cases harchive
      simp only [World.step, World.act]
      split
      · exact h
      · exact ⟨⟨h.coordinator.uncached, h.coordinator.plan, h.coordinator.queued⟩, h.flights, h.late, h.rows⟩

theorem Reachable.termed (h : Reachable d) : d.Termed := by
  induction h with
  | new quiet termed => exact ⟨⟨rfl, nofun, nofun⟩, nofun, nofun, termed⟩
  | step _ e can serves ih => exact ih.step can serves

end Deployment
end DegreePlan.Sync
