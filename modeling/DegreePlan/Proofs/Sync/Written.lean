import DegreePlan.Proofs.Sync.Orderly

/-!
# Batches that are written

What holds of a coordinator and all batches that are under way, in this session or an earlier one, holds
throughout if the beginning and the end of a write keep it.
-/

namespace DegreePlan.Sync

namespace Coordinator

variable {c : Coordinator}

/-- A flush stops the timer that waits, so it does not matter whether one does. -/
theorem beginFlush_fewer (h : c.Counted) {timers : List Timer} (fewer : timers.Sublist c.timers) :
    beginFlush.run { c with timers } = beginFlush.run c := by
  have stopped : ({ c with timers } : Coordinator).stopTimer = c.stopTimer := by
    rw [stopTimer_eq h, stopTimer_eq (h.fewer fewer)]
  simp only [beginFlush, run_bind, run_modify, stopped]

/-- Beginning and end of a write keep what holds of a coordinator and the batches that are written. -/
structure Upheld (P : List Batch → Coordinator → Prop) : Prop where
  fewer : ∀ {bs ds c}, P bs c → ds ⊆ bs → P ds c
  flush : ∀ {bs c}, P bs c → P bs (beginFlush.run c).2
  taken : ∀ {bs c b write}, P bs c → (beginFlush.run c).1 = .ok (some (b, write)) →
    P (b :: bs) (beginFlush.run c).2
  finish : ∀ {bs c b} outcome, P bs c → b ∈ bs → P bs ((finishFlush b outcome).run c).2

end Coordinator

/-- Steps that begin, answer or end a write. -/
def Act.Writes : Act → Prop
  | .flush | .expire | .reply .. | .finish _ => True
  | _ => False

namespace World

open Coordinator

variable {w : World} {P : List Batch → Coordinator → Prop}

/-- The batches that are written, those of earlier sessions too. -/
def written (w : World) : List Batch := (w.flights ++ w.late).map (·.batch)

/-- It holds of the coordinator and the batches that are written. -/
def Holds (P : List Batch → Coordinator → Prop) (w : World) : Prop := P w.written w.coordinator

/-- A timer that runs out begins a flush, or there was none. -/
theorem Counted.expire_cases (h : w.Counted) : (w.act .expire).1 = w.launch.1 ∨ (w.act .expire).1 = w := by
  obtain ⟨timers, fewer, he⟩ | he := w.expire_cases <;> rw [he]
  · left
    unfold World.launch
    rw [beginFlush_fewer h.coordinator fewer]
  · exact .inr rfl

end World

namespace Coordinator.Upheld

open World

variable {w : World} {P : List Batch → Coordinator → Prop}

theorem launch (hP : Upheld P) (h : w.Holds P) : w.launch.1.Holds P := by
  have begun : P w.written (beginFlush.run w.coordinator).2 := hP.flush h
  have taken : ∀ b (write : Write), (beginFlush.run w.coordinator).1 = .ok (some (b, write)) →
      P (b :: w.written) (beginFlush.run w.coordinator).2 := fun _ _ => hP.taken h
  unfold World.launch
  rcases hr : beginFlush.run w.coordinator with ⟨f | (_ | ⟨b, write⟩), d⟩ <;> rw [hr] at begun taken
  · exact begun
  · exact begun
  · refine hP.fewer (taken b write rfl) fun x hx => ?_
    simp only [written, List.append_assoc, List.map_append, List.mem_append, List.map_cons, List.map_nil, List.mem_cons,
      Flight.start_batch, List.not_mem_nil, or_false] at hx ⊢
    tauto

/-- No write came. -/
theorem still (hP : Upheld P) {v : World} (h : P w.written v.coordinator)
    (hv : ∀ f ∈ v.flights ++ v.late, ∃ g ∈ w.flights ++ w.late, f.batch = g.batch) : v.Holds P := by
  refine hP.fewer h fun b hb => ?_
  obtain ⟨f, hf, rfl⟩ := List.mem_map.1 hb
  obtain ⟨g, hg, he⟩ := hv f hf
  exact List.mem_map.2 ⟨g, hg, he.symm⟩

theorem act (hP : Upheld P) (hc : w.Counted) (h : w.Holds P) {a : Act} (ha : a.Writes) : (w.act a).1.Holds P := by
  cases a with
  | flush => exact hP.launch h
  | expire =>
    rcases hc.expire_cases with he | he <;> rw [he]
    · exact hP.launch h
    · exact h
  | reply i r =>
    refine hP.still h fun f hf => ?_
    rcases List.mem_append.1 hf with hf | hf
    · obtain ⟨g, hg, he, -⟩ := mem_answered hf
      exact ⟨g, List.mem_append_left _ hg, he⟩
    · exact ⟨f, List.mem_append_right _ hf, rfl⟩
  | finish i =>
    simp only [World.act]
    split
    · exact h
    · next f hf =>
      have mem : f.batch ∈ w.written := List.mem_map_of_mem (List.mem_append_left _ (ready?_mem hf).1)
      refine hP.still (hP.finish f.cause h mem) fun g hg => ⟨g, ?_, rfl⟩
      exact ((List.eraseIdx_sublist _ _).append_right _).subset hg
  | mutate | retry | close | listen | unlisten => exact ha.elim

theorem lateAct (hP : Upheld P) (h : w.Holds P) (a : LateAct) : (w.lateAct a).1.Holds P := by
  cases a with
  | reply i r =>
    refine hP.still h fun f hf => ?_
    rcases List.mem_append.1 hf with hf | hf
    · exact ⟨f, List.mem_append_left _ hf, rfl⟩
    · obtain ⟨g, hg, he, -⟩ := mem_answered hf
      exact ⟨g, List.mem_append_right _ hg, he⟩
  | finish i =>
    simp only [World.lateAct]
    split
    · exact h
    · next f hf =>
      have mem : f.batch ∈ w.written := List.mem_map_of_mem (List.mem_append_right _ (ready?_mem hf).1)
      refine hP.still (hP.finish f.cause h mem) fun g hg => ⟨g, ?_, rfl⟩
      exact ((List.eraseIdx_sublist _ _).append_left _).subset hg

theorem identify (hP : Upheld P) {event : IdentityEvent} {remote : Remote}
    (h : P w.written ((handle event fun _ => remote).run w.coordinator).2) : (w.identify event remote).1.Holds P := by
  unfold World.identify
  dsimp only
  split
  · exact h
  · exact hP.still h fun f hf => ⟨f, List.perm_append_comm.subset hf, rfl⟩

end Coordinator.Upheld
end DegreePlan.Sync
