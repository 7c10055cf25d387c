import DegreePlan.Proofs.Plan.InPlace
import DegreePlan.Proofs.Sync.Raise
import DegreePlan.Proofs.Sync.Resting

/-!
# Refused mutations

A mutation that the plan refuses, or that brings an unacceptable value, changes nothing: not the plan, not the batch
that waits nor its timer, not the writes under way, not the cache and not the outcome of the last write. It settles the
state, so a coordinator that reported something pending with nothing left to do reports to be idle afterwards. The
exception is a mutation that is made and then cannot be saved, because a number of the plan is too long to be written.
-/

namespace DegreePlan.Sync

open Plan

namespace Coordinator

variable {c d : Coordinator} {m : Mutation} {f : Fault}

/-- Changes the plan in place and schedules the write. What a mutation wrote before it raised stays. -/
def applyInPlace (m : Mutation) : Action Unit := do
  let c ← get
  if c.owner.isNone then throw (.plan .notSignedIn)
  set { c with state := .applying }
  let snapshot ← ExceptT.mk (pure c.plan.snapshot)
  let (made, plan) := (Edit.mutate m).run c.plan
  modify fun c => { c with plan }
  match made with
  | .error f =>
    if f.isRefusal || f.isUnacceptable then settle
    throw f
  | .ok effect =>
    if !effect.isEmpty then
      modify fun c => (c.enqueue snapshot m effect).restartTimer
      saveCache
    settle

/-- In place or not, the coordinator does the same. -/
theorem applyInPlace_eq (h : (c.plan.semesters.map (·.id)).Nodup) (m : Mutation) :
    (applyInPlace m).run c = (apply m).run c := by
  simp only [applyInPlace, apply, run_bind, run_get]
  split
  · rfl
  simp only [run_bind, run_set, run_mk, Edit.run_mutate h]
  cases c.plan.snapshot with
  | error f => rfl
  | ok snapshot =>
    dsimp only
    cases m.apply c.plan with
    | error f => rfl
    | ok q => rfl

/-- Why a mutation raises: nobody is signed in, or the plan cannot be listed, or the mutation raises, or the new plan
cannot be saved. -/
theorem apply_error (h : (apply m).run c = (.error f, d)) :
    (c.owner = none ∧ d = c) ∨ c.plan.snapshot = .error f ∨
    (c.owner.isSome = true ∧ m.apply c.plan = .error f ∧
      ((f.isRefusal || f.isUnacceptable) = true → d = c.settled)) ∨
    ∃ snapshot e p cache log, c.owner.isSome = true ∧ m.apply c.plan = .ok (e, p) ∧ saved p c.cache = .error f ∧
      d = { c.changed snapshot m e p with cache, log } := by
  rcases c.apply_steps m with ⟨signedOut, hr⟩ |
    ⟨signedIn, ⟨g, hs, hr⟩ | ⟨snapshot, -, ⟨g, hm, hr⟩ | ⟨e, p, hm, ⟨-, hr⟩ | ⟨-, saves⟩⟩⟩⟩
  · rw [hr] at h
    cases h
    exact .inl ⟨signedOut, rfl⟩
  · rw [hr] at h
    cases h
    exact .inr (.inl hs)
  · rw [hr] at h
    cases h
    exact .inr (.inr (.inl ⟨signedIn, hm, fun refused => if_pos refused⟩))
  · rw [hr] at h
    cases h
  · rcases saves with ⟨d', -, hr⟩ | ⟨g, d', hd, hr⟩ <;> rw [hr] at h <;> cases h
    obtain ⟨r, cache, log, hsave, -, hinges⟩ := saveCache_frame (c.changed snapshot m e p)
    obtain ⟨rfl, rfl⟩ := Prod.mk.inj (hsave.symm.trans hd)
    have raised := hinges.raised
    rw [changed_plan, changed_cache] at raised
    exact .inr (.inr (.inr ⟨snapshot, e, p, cache, log, signedIn, hm, raised, rfl⟩))

/-- On a plan that can be listed, a mutation that raises a refusal or an unacceptable value settles the state and
changes nothing else, or it is made and then too long to be saved. -/
theorem apply_refused (dated : ∀ s ∈ c.plan.semesters, s.Dated) (h : (apply m).run c = (.error f, d))
    (refused : (f.isRefusal || f.isUnacceptable) = true) :
    (c.owner = none ∧ d = c) ∨ (c.owner.isSome = true ∧ m.apply c.plan = .error f ∧ d = c.settled) ∨
    ∃ snapshot e p cache log, c.owner.isSome = true ∧ m.apply c.plan = .ok (e, p) ∧
      c.cache.isSome = true ∧ ¬ p.Written ∧
      f = .value .integerTooLongToWrite ∧ d = { c.changed snapshot m e p with cache, log } := by
  rcases apply_error h with signedOut | unlisted | ⟨signedIn, raised, settles⟩ |
    ⟨snapshot, e, p, cache, log, signedIn, made, unsaved, hd⟩
  · exact .inl signedOut
  · obtain ⟨s, hs⟩ : ∃ s, c.plan.snapshot = .ok s :=
      ⟨_, snapshot_eq_ok.2 ⟨_, ordered_of_dated dated, rfl⟩⟩
    rw [hs] at unlisted
    cases unlisted
  · exact .inr (.inl ⟨signedIn, raised, settles refused⟩)
  · refine .inr (.inr ⟨snapshot, e, p, cache, log, signedIn, made, ?_, fun written => ?_, ?_, hd⟩)
    · rw [← Option.not_isNone, Bool.not_eq_true', ← Bool.not_eq_true, Option.isNone_iff_eq_none]
      intro uncached
      rw [uncached] at unsaved
      cases unsaved
    · rw [saved_of_written written] at unsaved
      cases unsaved
    · by_contra other
      exact Plan.saved_not_expected ((Mutation.done made).shaped.dated dated) c.cache f unsaved ⟨refused, other⟩

/-- The state is as before if the coordinator told whether something is pending. -/
theorem refused_frame (honest : c.Honest) (rests : c.state = .idle ∨ c.state = .pending)
    (unchanged : (c.owner = none ∧ d = c) ∨ (c.owner.isSome = true ∧ d = c.settled)) :
    d = { c with state := d.state } ∧
      (d = c ↔ ¬ (c.owner.isSome = true ∧ c.state = .pending ∧ c.hasPending = false)) ∧
      (c.owner.isSome = true → c.state = .pending → c.hasPending = false → d.state = .idle) := by
  rcases unchanged with ⟨signedOut, rfl⟩ | ⟨signedIn, rfl⟩
  · exact ⟨rfl, by simp [signedOut], by simp [signedOut]⟩
  refine ⟨rfl, ⟨fun same stale => ?_, fun agrees => ?_⟩, fun _ _ nothing => by simp [settled, nothing]⟩
  · have settled : c.Settled := same ▸ settled_settled c
    rw [Settled, stale.2.1, stale.2.2] at settled
    cases settled
  · refine Settled.settled_eq ?_
    rcases rests with idle | pending
    · simp [Settled, idle, honest idle]
    · have something : c.hasPending = true := by
        rw [← Bool.not_eq_false]
        exact fun nothing => agrees ⟨signedIn, pending, nothing⟩
      simp [Settled, pending, something]

end Coordinator

namespace World

open Coordinator

variable {w : World} {m : Mutation} {f : Fault} {d : Coordinator}

/-- Take any coordinator that can be reached and is idle or reports something pending, whose plan is valid and has
semesters that name terms. Let a mutation, made in place, raise a refusal of the plan or an unacceptable value. If
nobody is signed in or the mutation is not made, everything but the state is as before: the plan with its version,
the batch that waits, the timers, the writes under way, the cache, the outcome and the failure of the last write.
The state is as before as well, unless somebody is signed in and the coordinator reported something pending with
nothing left to do; then it reports to be idle. A mutation that is made raises only where there is a cache for which
a number of the new plan is too long, and then the mutation stays made. -/
theorem refused_changes_nothing (h : Reachable w)
    (rests : w.coordinator.state = .idle ∨ w.coordinator.state = .pending)
    (valid : w.coordinator.plan.Valid) (dated : ∀ s ∈ w.coordinator.plan.semesters, s.Dated)
    (raised : (applyInPlace m).run w.coordinator = (.error f, d))
    (refused : f.isRefusal = true ∨ f.isUnacceptable = true) :
    let c := w.coordinator
    ((∀ e p, c.owner.isSome = true → m.apply c.plan ≠ .ok (e, p)) →
      d = { c with state := d.state } ∧
        (d = c ↔ ¬ (c.owner.isSome = true ∧ c.state = .pending ∧ c.hasPending = false)) ∧
        (c.owner.isSome = true → c.state = .pending → c.hasPending = false → d.state = .idle)) ∧
    ∀ e p, c.owner.isSome = true → m.apply c.plan = .ok (e, p) →
      f = .value .integerTooLongToWrite ∧ c.cache.isSome = true ∧ ¬ p.Written ∧
        d.plan = p ∧ (∃ b : Batch, d.queued = some (b.push m e)) ∧ d.state = .applying := by
  rw [applyInPlace_eq valid.ids] at raised
  have cases := apply_refused dated raised (by simpa using refused)
  refine ⟨fun unmade => refused_frame h.honest rests ?_, fun e p signedIn made => ?_⟩
  · rcases cases with signedOut | ⟨signedIn, -, settled⟩ | ⟨-, e, p, -, -, signedIn, made, -⟩
    · exact .inl signedOut
    · exact .inr ⟨signedIn, settled⟩
    · exact absurd made (unmade e p signedIn)
  · rcases cases with ⟨signedOut, -⟩ | ⟨-, unmade, -⟩ |
      ⟨snapshot, e', p', cache, log, -, made', cached, long, tooLong, rfl⟩
    · rw [signedOut] at signedIn
      cases signedIn
    · rw [made] at unmade
      cases unmade
    · rw [made] at made'
      cases made'
      obtain ⟨-, -, -, b, queued, -⟩ :=
        enqueue_frame { w.coordinator with state := .applying, plan := p } snapshot m e
      exact ⟨tooLong, cached, long, changed_plan .., ⟨b, (restartTimer_queued _).trans queued⟩,
        changed_state ..⟩

/-- A course waits to be written when another one of its code is refused. -/
theorem refused_changes_nothing_duplicate :
    let remote : Remote := { stored := some (.ok (.arr [.obj [("id", .int 202400)], .obj [("id", .int 202501)]])) }
    let course : Entry := { id := .int 1, code := .str "CS 101", title := .str "", credits := 3, status := .planned
                            semester := .int 202400, grade := none }
    let first : World := { coordinator := .new 0.4 none }
    let w :=
      ((first.step (.identity { user := some "user-a", kind := .signedIn } remote)).1.step
        (.act (.mutate (.add course)))).1
    let r := (applyInPlace (.add { course with id := .int 2, semester := .int 202501 })).run w.coordinator
    r.2 = w.coordinator ∧ r.2.queued.isSome = true ∧ r.2.timers.length = 1 := by
  intro remote course first w r
  have reachable : Reachable w := .step (.step (.new 0.4 none) _) _
  have valid : w.coordinator.plan.Valid :=
    ⟨by decide +kernel, by decide +kernel, by decide +kernel, by decide +kernel⟩
  have refused : (match r.1 with | .ok _ => false | .error f => f.isRefusal) = true := by decide +kernel
  have unmade :
      (Mutation.add { course with id := .int 2, semester := .int 202501 }).apply
      w.coordinator.plan |>.toOption.isNone := by
    decide +kernel
  have pending : w.coordinator.hasPending = true := by decide +kernel
  have waits : w.coordinator.queued.isSome = true ∧ w.coordinator.timers.length = 1 := by decide +kernel
  rcases hr : r with ⟨f | u, d⟩ <;> rw [hr] at refused
  · have raises := refused_changes_nothing reachable (.inr (by decide +kernel)) valid (by decide +kernel) hr
      (.inl refused)
    obtain ⟨-, same, -⟩ := raises.1 fun e p _ made => by rw [made] at unmade; cases unmade
    have unchanged : d = w.coordinator := same.2 fun stale => by rw [pending] at stale; cases stale.2.2
    rw [unchanged]
    exact ⟨rfl, waits⟩
  · cases refused

/-- A course has an id of one digit too many for the cache. It is added, and the save raises. -/
example :
    let remote : Remote := { stored := some (.ok (.arr [.obj [("id", .int 202400)]])) }
    let course : Entry :=
      { id := .int (10 ^ 4300), code := .str "CS 101", title := .str "", credits := 3, status := .planned,
        semester := .int 202400, grade := none }
    let first : World := { coordinator := .new 0.4 (some {}) }
    let w := (first.step (.identity { user := some "user-a", kind := .signedIn } remote)).1
    let r := (applyInPlace (.add course)).run w.coordinator
    (match r.1 with | .ok _ => false | .error f => f.isUnacceptable) = true ∧ r.2.plan.entries.length = 1 ∧
      r.2.state = .applying := by decide +kernel

/-- A course brings more credits than an average can hold, so that its write cannot be begun and the flush raises. The
batch is gone, but the coordinator goes on to report something pending. A change of a course that is not there is
refused, and after it the coordinator reports to be idle. -/
theorem refused_changes_nothing_stale :
    let remote : Remote := { stored := some (.ok (.arr [.obj [("id", .int 202400)]])) }
    let course : Entry :=
      { id := .int 1, code := .str "CS 101", title := .str "", credits := Nat.pow 10 400, status := .completed,
        semester := .int 202400, grade := some (.letter .a) }
    let events : List Event :=
      [.identity { user := some "user-a", kind := .signedIn } remote, .act (.mutate (.add course)), .act .flush]
    let w : World := events.foldl (fun w e => (w.step e).1) { coordinator := .new 0.4 none }
    let r := (applyInPlace (.setStatus (.int 202400) (.int 9) (.str "completed") .null)).run w.coordinator
    Reachable w ∧ w.coordinator.plan.Valid ∧ (∀ s ∈ w.coordinator.plan.semesters, s.Dated) ∧
      w.coordinator.state = .pending ∧
      (match r.1 with | .ok _ => false | .error f => f.isRefusal) = true ∧ r.2.state = .idle :=
  ⟨.step (.step (.step (.new 0.4 none) _) _) _,
    ⟨by decide +kernel, by decide +kernel, by decide +kernel, by decide +kernel⟩, by decide +kernel⟩

end World
end DegreePlan.Sync
