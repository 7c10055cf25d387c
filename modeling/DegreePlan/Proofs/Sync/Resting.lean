import DegreePlan.Proofs.Sync.Opening
import DegreePlan.Proofs.Sync.Written

/-!
# The state between operations

An operation that goes well ends in the state that tells whether something is pending. One that is cut short
may stop in the middle of a change, or leave the state of before although less is pending by now. So a
coordinator that reports to be idle is idle, but one that reports something pending may have nothing to do.
-/

namespace DegreePlan.Sync

namespace Coordinator

variable {c d : Coordinator}

@[simp] theorem stopTimer_hasPending (c : Coordinator) : c.stopTimer.hasPending = c.hasPending := by simp [hasPending]

/-- The state tells whether something is pending. -/
def Settled (c : Coordinator) : Prop := c.state = if c.hasPending then .pending else .idle

instance (c : Coordinator) : Decidable c.Settled := inferInstanceAs (Decidable (_ = _))

theorem settled_settled (c : Coordinator) : c.settled.Settled := rfl

theorem Settled.congr (h : c.Settled) (state : d.state = c.state) (pending : d.hasPending = c.hasPending) :
    d.Settled := by
  rw [Settled, state, pending]; exact h

/-- A settled coordinator is settled again by the same state. -/
theorem Settled.settled_eq (h : c.Settled) : c.settled = c := by
  have : ({ c with state := c.state } : Coordinator) = c := rfl
  rw [settled, ← h]

/-- What an operation makes of the state: it settles it, or stops in the middle of a change, or leaves the state as it
was while no more is pending than before. -/
inductive Ends (c d : Coordinator) : Prop where
  | settled (h : d.Settled)
  | applying (h : d.state = .applying)
  | same (state : d.state = c.state) (fewer : d.hasPending = true → c.hasPending = true)

/-! ## Operations -/

/-- What keeps a mutation from being carried through, which leaves `d`: the plan cannot be listed, or the mutation
raises what is neither a refusal nor an unacceptable value, or the new plan cannot be saved. -/
def Breaks (c : Coordinator) (m : Mutation) (d : Coordinator) : Prop :=
  (∃ f, c.plan.snapshot = .error f) ∨
    (∃ f, m.apply c.plan = .error f ∧ f.isRefusal = false ∧ f.isUnacceptable = false) ∨
    ∃ e p, m.apply c.plan = .ok (e, p) ∧ d.plan = p ∧ ¬ c.Saves p

/-- A mutation settles the state, or nobody is signed in, or it stops in the middle. -/
theorem apply_ends (c : Coordinator) (m : Mutation) :
    let d := ((apply m).run c).2
    d.Settled ∨ d = c ∨ (d.state = .applying ∧ c.Breaks m d) := by
  rcases c.apply_steps m with ⟨-, hr⟩ |
    ⟨-, ⟨f, hs, hr⟩ | ⟨snapshot, -, ⟨f, hm, hr⟩ | ⟨e, plan, hm, ⟨-, hr⟩ | ⟨-, saves⟩⟩⟩⟩
  · rw [hr]; exact .inr (.inl rfl)
  · rw [hr]; exact .inr (.inr ⟨rfl, .inl ⟨f, hs⟩⟩)
  · rw [hr]
    dsimp only
    split
    · exact .inl (settled_settled _)
    · next hf =>
      simp only [Bool.or_eq_true, not_or, Bool.not_eq_true] at hf
      exact .inr (.inr ⟨rfl, .inr (.inl ⟨f, hm, hf⟩)⟩)
  · rw [hr]; exact .inl (settled_settled _)
  · rcases saves with ⟨d, -, hr⟩ | ⟨f, d, hd, hr⟩ <;> rw [hr]
    · exact .inl (settled_settled _)
    · obtain ⟨r, cache, log, hsave, -, hinges⟩ := saveCache_frame (c.changed snapshot m e plan)
      obtain ⟨rfl, rfl⟩ := Prod.mk.inj (hsave.symm.trans hd)
      refine .inr (.inr ⟨c.changed_state snapshot m e plan,
        .inr (.inr ⟨e, plan, hm, c.changed_plan snapshot m e plan, fun h => ?_⟩)⟩)
      obtain ⟨-, ⟨⟩⟩ := hinges.ok (by rw [changed_plan, Saves, changed_cache]; exact h)

theorem ends_apply (c : Coordinator) (m : Mutation) : Ends c ((apply m).run c).2 := by
  rcases c.apply_ends m with h | h | ⟨h, -⟩
  · exact .settled h
  · rw [h]; exact .same rfl id
  · exact .applying h

/-- A flush that lists its batch reports something pending, and one that does not leaves the state as it was. -/
theorem ends_beginFlush (c : Coordinator) : Ends c (beginFlush.run c).2 := by
  rcases c.beginFlush_cases with ⟨-, h⟩ | ⟨b, hb, ⟨f, h, -⟩ | ⟨ps, gone, -, -, h⟩⟩ <;> rw [h]
  · exact .same (by simp) (by simp)
  · refine .same (by simp) fun _ => ?_
    simp [hasPending, hb]
  · exact .settled (by simp [Settled, hasPending])

/-- The end of a flush settles the state, unless it raises. Then the state is the one of before, and the batch may be
gone. -/
theorem finishFlush_ends (c : Coordinator) (b : Batch) (outcome : Option String) :
    let r := (finishFlush b outcome).run c
    (r.1.isOk = true ∧ r.2.Settled) ∨
      (r.1.isOk = false ∧ r.2.state = c.state ∧ (r.2.hasPending = true → c.hasPending = true)) := by
  simp only [finishFlush, run_bind, run_get]
  cases hd : dropBatch? b c.inFlight with
  | none => exact .inr ⟨rfl, rfl, id⟩
  | some rest =>
    have listed : c.hasPending = true := by
      have : c.inFlight ≠ [] := fun h => by rw [h] at hd; cases hd
      simp [hasPending, this]
    simp only [run_bind, run_set]
    split
    · exact .inl ⟨rfl, settled_settled _⟩
    · cases outcome with
      | none => exact .inl ⟨rfl, settled_settled _⟩
      | some cause =>
        dsimp only
        split
        · simp only [run_bind, run_mk]
          cases b.sortedSemesters with
          | error f => exact .inr ⟨rfl, rfl, fun _ => listed⟩
          | ok semesters => exact .inl ⟨rfl, settled_settled _⟩
        · simp only [run_bind]
          rcases rollBack_cases { c with inFlight := rest } b cause with
            ⟨f, -, hrun⟩ | ⟨plan, -, r, cache, log, lastFailure, inFlight, hrun, -⟩
          · rw [hrun]; exact .inr ⟨rfl, rfl, fun _ => listed⟩
          · rw [hrun]
            cases r with
            | error f => exact .inr ⟨rfl, rfl, fun _ => listed⟩
            | ok failure =>
              simp only [run_modify, run_settle]
              obtain ⟨log', hn⟩ := notify_frame
                { c with plan, cache, log, lastFailure, inFlight, lastOutcome := some .rolledBack }.settled c.listeners
              rw [settled] at hn ⊢
              rw [hn]
              exact .inl ⟨rfl, rfl⟩

theorem ends_finishFlush (c : Coordinator) (b : Batch) (outcome : Option String) :
    Ends c ((finishFlush b outcome).run c).2 := by
  rcases c.finishFlush_ends b outcome with ⟨-, h⟩ | ⟨-, state, fewer⟩
  · exact .settled h
  · exact .same state fewer

/-! ## Sessions -/

/-- The end of a session settles the state once the file of the owner is gone. -/
theorem endSession_ends (c : Coordinator) :
    ((∃ cache, c.cleared = .ok cache) ∧ (endSession.run c).2.Settled) ∨
      ∃ f, c.cleared = .error f ∧ endSession.run c = (.error f, c.ended) := by
  have last : ∀ d : Coordinator, ((settle >>= fun _ => if c.owner.isSome then
      note "[SYNC] Session ended; discarded plan data for the previous identity."
      else pure () : Action Unit).run d).2.Settled := by
    intro d
    rw [run_bind, run_settle]
    dsimp only
    split
    · exact settled_settled d
    · exact settled_settled d
  obtain ⟨log, state, hr⟩ := c.endSession_eq
  cases hc : c.cleared with
  | error f => exact .inr ⟨f, rfl, by rw [hr, hc]⟩
  | ok found =>
    refine .inl ⟨⟨found, rfl⟩, ?_⟩
    unfold cleared at hc
    simp only [endSession, run_bind, run_get, run_modify, stopTimer_cache]
    split
    · next cache user h₁ h₂ =>
      simp only [h₁, h₂, map_eq_ok] at hc
      obtain ⟨d, hd, -⟩ := hc
      simp only [run_bind, run_mk, hd]
      exact last _
    · exact last _

/-- The beginning of a session leaves the state and what is pending as they are. -/
theorem beginSession_still (c : Coordinator) (user : String) (remote : Remote) :
    let d := ((beginSession user remote).run c).2
    d.state = c.state ∧ d.queued = c.queued ∧ d.inFlight = c.inFlight := by
  obtain ⟨r, backend, plan, cache, log, h, -⟩ := c.beginSession_frame user remote
  rw [h]
  exact ⟨rfl, rfl, rfl⟩

/-- An event changes nothing, or it settles the state after the last session has ended, or the last session could not
end. No batch waits in a session that begins, and the writes under way stay on the list. -/
theorem handle_ends (c : Coordinator) (event : IdentityEvent) (remote : String → Remote) :
    let d := ((handle event remote).run c).2
    d = c ∨ (d.queued = none ∧ d.inFlight = c.inFlight ∧
      (((∃ cache, c.cleared = .ok cache) ∧ d.Settled) ∨
        ((∃ f, c.cleared = .error f) ∧ d.state = c.state))) := by
  obtain ⟨r, cache, log, state, hframe⟩ := c.endSession_frame
  have ended : (endSession.run c).2.queued = none ∧ (endSession.run c).2.inFlight = c.inFlight := by
    rw [hframe]
    exact ⟨rfl, stopTimer_inFlight c⟩
  have ends : ((∃ cache, c.cleared = .ok cache) ∧ (endSession.run c).2.Settled) ∨
      ((∃ f, c.cleared = .error f) ∧ (endSession.run c).2.state = c.state) := by
    rcases c.endSession_ends with h | ⟨f, hf, h⟩
    · exact .inl h
    · exact .inr ⟨⟨f, hf⟩, by rw [h]; exact stopTimer_state c⟩
  cases hnew : c.newcomer? event with
  | none =>
    rcases handle_other hnew remote with h | h
    · exact .inl h
    · rw [h]; exact .inr ⟨ended.1, ended.2, ends⟩
  | some user =>
    obtain ⟨hk, hu, ho⟩ := newcomer?_eq_some.1 hnew
    rw [handle_signIn hk hu ho, run_bind]
    rcases he : endSession.run c with ⟨f | u, d⟩
    · rw [he] at ended ends
      exact .inr ⟨ended.1, ended.2, ends⟩
    · rw [he] at ended ends
      obtain ⟨state, queued, inFlight⟩ := d.beginSession_still user (remote user)
      refine .inr ⟨queued.trans ended.1, inFlight.trans ended.2, ends.imp ?_ ?_⟩
      · exact fun ⟨hc, hs⟩ => ⟨hc, hs.congr state (by rw [hasPending, queued, inFlight]; rfl)⟩
      · exact fun ⟨hc, hs⟩ => ⟨hc, state.trans hs⟩

theorem ends_handle (c : Coordinator) (event : IdentityEvent) (remote : String → Remote) :
    Ends c ((handle event remote).run c).2 := by
  rcases c.handle_ends event remote with h | ⟨queued, inFlight, ⟨-, h⟩ | ⟨-, h⟩⟩
  · rw [h]; exact .same rfl id
  · exact .settled h
  · exact .same h (by simp +contextual [hasPending, queued, inFlight])

/-! ## Idle coordinators -/

/-- A coordinator that reports to be idle has nothing pending. -/
def Honest (c : Coordinator) : Prop := c.state = .idle → c.hasPending = false

theorem Settled.honest (h : c.Settled) : c.Honest := by
  intro idle
  rw [Settled, idle] at h
  split at h
  · cases h
  · next hp => simpa using hp

theorem Ends.honest (h : Ends c d) (hc : c.Honest) : d.Honest := by
  rcases h with h | h | ⟨state, fewer⟩
  · exact h.honest
  · intro idle
    rw [h] at idle
    cases idle
  · intro idle
    have rests := hc (state.symm.trans idle)
    cases hd : d.hasPending with
    | false => rfl
    | true => rw [fewer hd] at rests; cases rests

end Coordinator

namespace World

open Coordinator

variable {w : World}

theorem honest_launch (h : w.coordinator.Honest) : w.launch.1.coordinator.Honest := by
  have begun := (ends_beginFlush w.coordinator).honest h
  unfold launch
  split <;> simp_all

theorem honest_act (h : w.coordinator.Honest) (a : Act) : (w.act a).1.coordinator.Honest := by
  cases a with
  | mutate m => exact (ends_apply _ m).honest h
  | retry failure => exact retry_keeps (fun m _ c hc => (ends_apply c m).honest hc) _ h
  | flush => exact honest_launch h
  | expire =>
    obtain ⟨timers, -, he⟩ | he := w.expire_cases <;> rw [he]
    · exact honest_launch h
    · exact h
  | reply i r => exact h
  | finish i =>
    simp only [act]
    split
    · exact h
    · exact (ends_finishFlush _ _ _).honest h
  | close => exact fun idle => (stopTimer_hasPending _).trans (h ((stopTimer_state _).symm.trans idle))
  | listen fault => exact h
  | unlisten i =>
    simp only [act]
    split <;> exact h

theorem honest_step (h : w.coordinator.Honest) (e : Event) : (w.step e).1.coordinator.Honest := by
  cases e with
  | act a => exact honest_act h a
  | late a =>
    cases a with
    | reply i r => exact h
    | finish i =>
      simp only [step, lateAct]
      split
      · exact h
      · exact (ends_finishFlush _ _ _).honest h
  | identity event remote =>
    have handled := (ends_handle w.coordinator event fun _ => remote).honest h
    simp only [step, identify]
    split <;> exact handled

/-- In every reachable world a coordinator that reports to be idle has nothing pending. -/
theorem Reachable.honest (h : Reachable w) : w.coordinator.Honest := by
  induction h with
  | new quiet cache => exact fun _ => rfl
  | step _ e ih => exact honest_step ih e

end World
end DegreePlan.Sync
