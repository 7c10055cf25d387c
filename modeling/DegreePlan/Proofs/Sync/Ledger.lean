import DegreePlan.Proofs.Sync.Replay

/-!
# What a rollback takes back

A ledger numbers the mutations of a session in the order in which they are made and keeps those that
stand: a rollback strikes out all that do not stand in the snapshot it goes back to. While no write
begins before the last one ended, these are just the mutations that the failure tells. With two writes
under way it is otherwise: a batch that was overtaken keeps its old snapshot, so a rollback of it
strikes out a batch that was committed meanwhile.
-/

namespace DegreePlan.Sync

open Plan

/-- A mutation that was made, with its number. -/
abbrev Issued := Mutation × Nat

/-- The mutations of a batch, and those that stood when its snapshot was taken. -/
structure Account where
  point : List Issued := []
  items : List Issued := []

/-- A session with an account of its mutations. -/
structure Ledger where
  world : World
  count : Nat := 0
  /-- What was made and not taken back. -/
  standing : List Issued := []
  /-- The account of the waiting batch. -/
  waiting : Account := {}
  /-- The accounts of the batches that are being written. -/
  writing : List Account := []
  /-- The mutations of the batches that were committed. -/
  committed : List Issued := []

/-- The mutations that wait. -/
def Coordinator.held (c : Coordinator) : List Mutation := c.queued.elim [] (·.mutations)

namespace Ledger

/-- Numbers the mutations that were added to the waiting batch. A batch that was opened has its snapshot
from before the first of them. -/
def enter (l : Ledger) (w : World) : Ledger :=
  let new := (w.coordinator.held.drop l.world.coordinator.held.length).zipIdx l.count
  { l with
    world := w
    count := l.count + new.length
    standing := l.standing ++ new
    waiting := if l.world.coordinator.queued.isSome then { l.waiting with items := l.waiting.items ++ new }
      else { point := l.standing, items := new } }

/-- A write that began takes the account of the waiting batch over. -/
def launched (l : Ledger) (w : World) : Ledger :=
  { l with
    world := w
    writing := if w.flights.length = l.world.flights.length then l.writing else l.writing ++ [l.waiting] }

/-- The end of a write with this account. -/
def ended (l : Ledger) (w : World) (i : Nat) (a : Account) (o : Option SyncState) : Ledger :=
  let l' := { l with world := w, writing := l.writing.eraseIdx i }
  match o with
  | some .committed => { l' with committed := l.committed ++ a.items }
  | some .rolledBack => { l' with standing := a.point }
  | some .pending =>
    { l' with waiting :=
        { point := a.point, items := a.items ++ if l.world.coordinator.queued.isSome then l.waiting.items else [] } }
  | _ => l'

/-- Lets something happen. -/
def step (l : Ledger) (e : Event) : Ledger :=
  let w := (l.world.step e).1
  match e with
  | .act (.mutate _) | .act (.retry _) => l.enter w
  | .act .flush | .act .expire => l.launched w
  | .act (.finish i) =>
    match World.ready? l.world.flights i, l.writing[i]? with
    | some _, some a => l.ended w i a (l.world.step e).2.ended
    | _, _ => { l with world := w }
  | _ => { l with world := w }

/-- What a rollback of this write takes back: all that stands and did not stand at the snapshot. -/
def takenBack (l : Ledger) (i : Nat) : List Issued :=
  match l.writing[i]? with
  | none => []
  | some a => l.standing.filter fun x => !a.point.any fun y => y.2 == x.2

/-! ## What every step keeps -/

/-- What is known of the account of a write: what stood when the next batch began, or what stands now,
is what stood before it and its own mutations. -/
structure Carries (l : Ledger) (f : Flight) (a : Account) : Prop where
  only : l.writing = [a]
  items : a.items.map (·.1) = f.batch.mutations
  upTo : (if l.world.coordinator.queued.isSome then l.waiting.point else l.standing) = a.point ++ a.items
  later : ∀ x ∈ l.committed, ∀ y ∈ a.items, x.2 < y.2

/-- What holds throughout a session in which no write begins before the last one ended. -/
structure Balanced (l : Ledger) : Prop where
  numbered : l.standing.Pairwise (·.2 < ·.2)
  stood : ∀ x ∈ l.standing, x.2 < l.count
  written : ∀ x ∈ l.committed, x.2 < l.count
  resting : l.world.flights = [] → l.writing = []
  waiting : ∀ b ∈ l.world.coordinator.queued, l.waiting.items.map (·.1) = b.mutations ∧
    l.standing = l.waiting.point ++ l.waiting.items ∧ ∀ x ∈ l.committed, ∀ y ∈ l.waiting.items, x.2 < y.2
  writing : ∀ f ∈ l.world.flights, ∃ a, l.Carries f a

end Ledger

namespace Coordinator

/-- What waits was only added to. -/
structure Extends (c d : Coordinator) : Prop where
  held : c.held <+: d.held
  queued : c.queued.isSome = true → d.queued.isSome = true

variable {c d e : Coordinator}

theorem extends_of_eq (h : d.queued = c.queued) : Extends c d :=
  ⟨by rw [held, held, h], fun hc => by rw [h]; exact hc⟩

theorem Extends.trans (h : Extends c d) (k : Extends d e) : Extends c e :=
  ⟨h.held.trans k.held, fun hc => k.queued (h.queued hc)⟩

theorem extends_apply (c : Coordinator) (m : Mutation) : Extends c ((apply m).run c).2 := by
  obtain ⟨-, -, ⟨-, hq⟩ | ⟨snapshot, e, b, -, -, -, hq, hb⟩⟩ := c.apply_made m
  · exact extends_of_eq hq
  · refine ⟨?_, fun _ => by rw [hq]; rfl⟩
    rcases hb with hb | ⟨hn, -⟩
    · rw [held, held, hb, hq]
      exact List.prefix_append _ _
    · rw [held, hn]
      exact List.nil_prefix

theorem extends_retry (c : Coordinator) (failure : SyncFailure) : Extends c ((retry failure).run c).2 :=
  retry_keeps (P := Extends c) (fun m _ d hd => hd.trans (extends_apply d m)) c (extends_of_eq rfl)

end Coordinator

theorem pairwise_zipIdx (ms : List Mutation) (n : Nat) : (ms.zipIdx n).Pairwise (·.2 < ·.2) := by
  have h : ((ms.zipIdx n).map Prod.snd).Pairwise (· < ·) := by
    rw [List.zipIdx_map_snd]
    exact List.pairwise_lt_range' 1
  exact List.pairwise_map.1 h

namespace Ledger

variable {l : Ledger} {w : World} {user : String} {first : Nat}

/-- Mutations that are made stand after all others. -/
theorem Balanced.enter (h : l.Balanced) (he : l.world.coordinator.Extends w.coordinator)
    (hf : w.flights = l.world.flights) : (l.enter w).Balanced := by
  obtain ⟨new, hnew⟩ : ∃ new, new = (w.coordinator.held.drop l.world.coordinator.held.length).zipIdx l.count :=
    ⟨_, rfl⟩
  have made : new.map (·.1) = w.coordinator.held.drop l.world.coordinator.held.length := by
    rw [hnew]; exact List.zipIdx_map_fst _ _
  have all : w.coordinator.held = l.world.coordinator.held ++ new.map (·.1) := by
    rw [made]; exact List.prefix_append_drop he.held
  have recent : ∀ x ∈ new, l.count ≤ x.2 ∧ x.2 < l.count + new.length := by
    intro x hx
    rw [hnew] at hx ⊢
    rw [List.length_zipIdx]
    exact ⟨List.le_snd_of_mem_zipIdx hx, List.snd_lt_add_of_mem_zipIdx hx⟩
  simp only [Ledger.enter, ← hnew]
  refine ⟨?_, fun x hx => ?_, fun x hx => ?_, fun hn => h.resting (hf ▸ hn), fun b hb => ?_, fun f hm => ?_⟩
  · refine List.pairwise_append.2 ⟨h.numbered, hnew ▸ pairwise_zipIdx _ _, fun x hx y hy => ?_⟩
    exact Nat.lt_of_lt_of_le (h.stood x hx) (recent y hy).1
  · rcases List.mem_append.1 hx with hx | hx
    · exact Nat.lt_add_right _ (h.stood x hx)
    · exact (recent x hx).2
  · exact Nat.lt_add_right _ (h.written x hx)
  · have hheld : w.coordinator.held = b.mutations := by rw [Coordinator.held, hb]; rfl
    have old : ∀ x ∈ l.committed, ∀ y ∈ new, x.2 < y.2 := fun x hx y hy =>
      Nat.lt_of_lt_of_le (h.written x hx) (recent y hy).1
    cases hq : l.world.coordinator.queued with
    | none =>
      have empty : l.world.coordinator.held = [] := by rw [Coordinator.held, hq]; rfl
      simp only [Option.isSome_none, Bool.false_eq_true, ↓reduceIte]
      exact ⟨by rw [← hheld, all, empty]; rfl, trivial, old⟩
    | some b₀ =>
      obtain ⟨hitems, hstanding, hlater⟩ := h.waiting b₀ hq
      have before : l.world.coordinator.held = b₀.mutations := by rw [Coordinator.held, hq]; rfl
      simp only [Option.isSome_some, ↓reduceIte]
      refine ⟨?_, by rw [hstanding, List.append_assoc], fun x hx y hy => ?_⟩
      · rw [← hheld, all, before, List.map_append, hitems]
      · rcases List.mem_append.1 hy with hy | hy
        · exact hlater x hx y hy
        · exact old x hx y hy
  · obtain ⟨a, honly, hitems, hupTo, hlater⟩ := h.writing f (hf ▸ hm)
    refine ⟨a, honly, hitems, ?_, hlater⟩
    dsimp only
    cases hq : l.world.coordinator.queued with
    | none =>
      simp only [hq, Option.isSome_none, Bool.false_eq_true, ↓reduceIte] at hupTo ⊢
      cases hqw : w.coordinator.queued with
      | none =>
        -- nothing waits after the mutations, so none of them was made
        have : new.map (·.1) = [] := by
          have hw : w.coordinator.held = [] := by rw [Coordinator.held, hqw]; rfl
          rw [hw] at all
          exact (List.append_eq_nil_iff.1 all.symm).2
        simpa [List.map_eq_nil_iff.1 this] using hupTo
      | some b => simpa using hupTo
    | some b₀ =>
      have hqw := he.queued (by rw [hq]; rfl)
      simpa only [hq, hqw, Option.isSome_some, ↓reduceIte] using hupTo

/-- The queue stayed as it was, and so did the batches that are written. -/
theorem Balanced.rest (h : l.Balanced) (hq : w.coordinator.queued = l.world.coordinator.queued)
    (hnil : w.flights = [] → l.world.flights = [])
    (hf : ∀ f ∈ w.flights, ∃ g ∈ l.world.flights, f.batch = g.batch) : Balanced { l with world := w } where
  numbered := h.numbered
  stood := h.stood
  written := h.written
  resting hn := h.resting (hnil hn)
  waiting b hb := h.waiting b (hq ▸ hb)
  writing f hm := by
    obtain ⟨g, hg, hbatch⟩ := hf f hm
    obtain ⟨a, honly, hitems, hupTo, hlater⟩ := h.writing g hg
    exact ⟨a, honly, hbatch ▸ hitems, by simpa only [hq] using hupTo, hlater⟩

/-- The same coordinator queue and the same writes. -/
theorem Balanced.same (h : l.Balanced) (hq : w.coordinator.queued = l.world.coordinator.queued)
    (hf : w.flights = l.world.flights) : Balanced { l with world := w } :=
  h.rest hq (fun hn => hf ▸ hn) fun f hm => ⟨f, hf ▸ hm, rfl⟩

theorem Balanced.launched (h : l.Balanced) (ho : l.world.Orderly user first)
    (hl : l.world.coordinator.queued.isSome → l.world.flights = [] ∧ Averaged l.world.coordinator.plan) :
    (l.launched l.world.launch.1).Balanced := by
  rcases ho.launch_cases hl with ⟨hq, hr⟩ | ⟨b, ps, gone, hq, hflights, -, -, -, f, hf, hr⟩
  · rw [hr]
    simp only [Ledger.launched, ↓reduceIte]
    exact h.same (Coordinator.stopTimer_queued _) rfl
  · rw [hr]
    have grown : ¬ [f].length = l.world.flights.length := by simp [hflights]
    obtain ⟨hitems, hstanding, hlater⟩ := h.waiting b hq
    simp only [Ledger.launched, grown, ↓reduceIte, h.resting hflights, List.nil_append]
    refine ⟨h.numbered, h.stood, h.written, nofun, nofun, fun g hg => ?_⟩
    rw [List.mem_singleton.1 hg]
    refine ⟨l.waiting, rfl, ?_, hstanding, hlater⟩
    rw [hf, Flight.start_batch]
    exact hitems

/-- Of the mutations that stand, those of a write come before those that wait. -/
theorem Carries.standing {f : Flight} {a : Account} (hc : l.Carries f a) (h : l.Balanced) :
    ∃ rest, l.standing = (a.point ++ a.items) ++ rest ∧
      (l.world.coordinator.queued = none → rest = []) ∧ ∀ b ∈ l.world.coordinator.queued,
      rest = l.waiting.items := by
  have hupTo := hc.upTo
  cases hq : l.world.coordinator.queued with
  | none =>
    simp only [hq, Option.isSome_none, Bool.false_eq_true, ↓reduceIte] at hupTo
    exact ⟨[], by rw [hupTo, List.append_nil], fun _ => rfl, nofun⟩
  | some b =>
    simp only [hq, Option.isSome_some, ↓reduceIte] at hupTo
    exact ⟨l.waiting.items, by rw [← hupTo]; exact (h.waiting b hq).2.1, nofun, fun _ _ => rfl⟩

/-- The end of a write: its mutations are committed, or wait again before the others, or are taken
back. -/
theorem Balanced.finish (h : l.Balanced) (ho : l.world.Orderly user first) {f : Flight} {a : Account}
    (hf : l.world.flights = [f]) (hc : l.Carries f a)
    (alone : f.plan.version = l.world.coordinator.plan.version → l.world.coordinator.queued = none) :
    let r := (Coordinator.finishFlush f.batch f.cause).run l.world.coordinator
    (l.ended { l.world with coordinator := r.2, flights := [] } 0 a (Report.ofFlushed r.1).ended).Balanced := by
  obtain ⟨rest, hstanding, hnone, hsome⟩ := hc.standing h
  obtain ⟨-, hcases⟩ := ho.finish_cases hf
  generalize (Coordinator.finishFlush f.batch f.cause).run l.world.coordinator = r at hcases ⊢
  have numbered := h.numbered
  rw [hstanding] at numbered
  obtain ⟨first, -, between⟩ := List.pairwise_append.1 numbered
  have none_left : l.writing.eraseIdx 0 = [] := by rw [hc.only]; rfl
  have items_stood : ∀ x ∈ a.items, x.2 < l.count := fun x hx => h.stood x (by rw [hstanding]; simp [hx])
  dsimp only
  rcases hcases with ⟨-, hr, -, hq⟩ | ⟨-, -, hr, -, b₀, hq, hb₀⟩ | ⟨-, hv, -, hq, hx, -⟩
  · -- committed: what waits was made later
    have he : (Report.ofFlushed r.1).ended = some .committed := by rw [hr]; rfl
    rw [he]
    refine ⟨h.numbered, h.stood, fun x hx => ?_, fun _ => none_left, fun b hb => ?_,
      fun _ hg => (List.not_mem_nil hg).elim⟩
    · exact (List.mem_append.1 hx).elim (h.written x) (items_stood x)
    · have hb' : l.world.coordinator.queued = some b := hq ▸ hb
      obtain ⟨hitems, hst, hlater⟩ := h.waiting b hb'
      refine ⟨hitems, hst, fun x hx y hy => ?_⟩
      rcases List.mem_append.1 hx with hx | hx
      · exact hlater x hx y hy
      · exact between x (List.mem_append_right _ hx) y (hsome b hb' ▸ hy)
  · -- put off: the two accounts become one
    have he : (Report.ofFlushed r.1).ended = some .pending := by rw [hr]; rfl
    rw [he]
    refine ⟨h.numbered, h.stood, h.written, fun _ => none_left, fun b hb => ?_,
      fun _ hg => (List.not_mem_nil hg).elim⟩
    cases hq.symm.trans hb
    rcases hb₀ with hb₀ | ⟨hn, rfl⟩
    · obtain ⟨hitems, -, hlater⟩ := h.waiting b₀ hb₀
      simp only [Ledger.ended, hb₀, Option.isSome_some, ↓reduceIte]
      refine ⟨?_, ?_, fun x hx y hy => ?_⟩
      · rw [List.map_append, hc.items, hitems]; rfl
      · rw [hstanding, hsome b₀ hb₀, List.append_assoc]
      · exact (List.mem_append.1 hy).elim (hc.later x hx y) (hlater x hx y)
    · simp only [Ledger.ended, hn, Option.isSome_none, Bool.false_eq_true, ↓reduceIte, List.append_nil]
      refine ⟨?_, ?_, hc.later⟩
      · rw [hc.items]; simp [Batch.prepend]
      · rw [hstanding, hnone hn, List.append_nil]
  · -- taken back: nothing waits, and what stands is what stood at the snapshot
    have empty : r.2.queued = none := hq.trans (alone hv)
    have none_waits : ∀ l' : Ledger, l'.world.coordinator = r.2 → ∀ b ∈ l'.world.coordinator.queued, False := by
      intro l' hl' b hb
      rw [hl', empty] at hb
      cases hb
    rcases hr : r.1 with fault | x
    · exact ⟨h.numbered, h.stood, h.written, fun _ => none_left, fun b hb => (none_waits _ rfl b hb).elim,
        fun _ hg => (List.not_mem_nil hg).elim⟩
    · have he : (Report.ofFlushed (.ok x)).ended = some .rolledBack := congrArg some (hx x hr)
      rw [he]
      refine ⟨?_, fun y hy => ?_, h.written, fun _ => none_left, fun b hb => (none_waits _ rfl b hb).elim,
        fun _ hg => (List.not_mem_nil hg).elim⟩
      · exact (List.pairwise_append.1 first).1
      · exact h.stood y (by rw [hstanding]; exact List.mem_append_left _ (List.mem_append_left _ hy))

/-! ## Runs -/

/-- The ledger of a session that begins. -/
def start (w : World) : Ledger := { world := w }

theorem balanced_start (hq : w.coordinator.queued = none) (hf : w.flights = []) : (start w).Balanced where
  numbered := .nil
  stood := nofun
  written := nofun
  resting _ := rfl
  waiting b hb := by cases hq.symm.trans hb
  writing f hm := by
    have : f ∈ w.flights := hm
    rw [hf] at this; cases this

/-- What may happen in a session. -/
def Allowed (l : Ledger) (e : Event) : Prop := l.world.Steady e

instance (l : Ledger) : DecidablePred l.Allowed := fun e => inferInstanceAs (Decidable (l.world.Steady e))

theorem step_world (l : Ledger) (e : Event) : (l.step e).world = (l.world.step e).1 := by
  unfold Ledger.step
  split <;> try rfl
  split
  · unfold Ledger.ended
    split <;> rfl
  · rfl

/-- Every step of a session that keeps to the rules keeps the ledger in order. -/
theorem Balanced.step (h : l.Balanced) {P : Plan → Prop} {c : Chronicle} (hc : c.world = l.world)
    (ht : c.Told P user first) {e : Event} (he : l.Allowed e) : (l.step e).Balanced := by
  have ho : l.world.Orderly user first := hc ▸ ht.kept.orderly
  cases e with
  | identity => exact he.elim
  | late a =>
    obtain ⟨-, -, hf, -, hq⟩ := ho.late_frame a
    exact h.same hq hf
  | act a =>
    cases a with
    | mutate m => exact h.enter (Coordinator.extends_apply _ m) rfl
    | retry failure => exact h.enter (Coordinator.extends_retry _ failure) rfl
    | flush => exact h.launched ho he.1
    | expire =>
      simp only [Ledger.step, World.step]
      obtain ⟨timers, -, expired⟩ | expired := l.world.expire_cases <;> rw [expired]
      · have waiting :
            Balanced { l with world := { l.world with coordinator := { l.world.coordinator with timers } } } :=
          h.same rfl rfl
        exact waiting.launched (ho.timers timers) he.1
      · simpa only [Ledger.launched, ↓reduceIte] using h
    | reply i r =>
      refine h.rest rfl World.answered_eq_nil fun f hm => ?_
      obtain ⟨g, hg, hb, -⟩ := World.mem_answered hm
      exact ⟨g, hg, hb⟩
    | finish i =>
      cases hr : World.ready? l.world.flights i with
      | none =>
        have unchanged : (l.world.step (.act (.finish i))).1 = l.world := by simp only [World.step, World.act, hr]
        simp only [Ledger.step, hr, unchanged]
        exact h
      | some f =>
        obtain ⟨hflights, rfl, -⟩ := ho.ready hr
        have hm : f ∈ l.world.flights := by simp [hflights]
        obtain ⟨a, hcarries⟩ := h.writing f hm
        have alone := fun hv => hc ▸ ht.alone (hc ▸ hm) (hc ▸ hv)
        have hfinish := h.finish ho hflights hcarries alone
        simp only [Ledger.step, World.step, World.act, hr, hcarries.only, List.getElem?_cons_zero]
        simpa only [hflights, List.eraseIdx_cons_zero] using hfinish
    | close =>
      obtain ⟨-, -, hf, -, -, hq⟩ := ho.still_frame (a := .close) trivial
      exact h.same hq hf
    | listen fault =>
      obtain ⟨-, -, hf, -, -, hq⟩ := ho.still_frame (a := .listen fault) trivial
      exact h.same hq hf
    | unlisten i =>
      obtain ⟨-, -, hf, -, -, hq⟩ := ho.still_frame (a := .unlisten i) trivial
      exact h.same hq hf

/-- With growing numbers, what stood at the snapshot is told from what came after it by the numbers. -/
theorem filter_after {xs ys : List Issued} (h : (xs ++ ys).Pairwise (·.2 < ·.2)) :
    (xs ++ ys).filter (fun x => !xs.any fun y => y.2 == x.2) = ys := by
  obtain ⟨-, -, between⟩ := List.pairwise_append.1 h
  have before : xs.filter (fun x => !xs.any fun y => y.2 == x.2) = [] := by
    rw [List.filter_eq_nil_iff]
    intro x hx
    simp only [Bool.not_eq_true', Bool.not_eq_false, List.any_eq_true, beq_iff_eq]
    exact ⟨x, hx, rfl⟩
  have after : ys.filter (fun x => !xs.any fun y => y.2 == x.2) = ys := by
    rw [List.filter_eq_self]
    intro y hy
    simp only [Bool.not_eq_true', List.any_eq_false, beq_iff_eq]
    exact fun x hx => Nat.ne_of_lt (between x hx y hy)
  rw [List.filter_append, before, after, List.nil_append]

/-- Take a session that began with a plan that can be written down, and any run of mutations, retries,
flushes, timers, answers and late writes in which no write begins before the last one ended and no
course is moved within its semester during a write. When a flush ends by a rollback, the mutations that
it takes back are just those that the failure tells, in the order in which they were made, and none of
them is of a batch that was committed. From the restored plan they lead to the plan that was lost. -/
theorem takes_back_told {w : World} (hw : World.Reachable w) {event : IdentityEvent} {remote : Remote}
    (hu : event.user = some user) (ho : w.coordinator.owner ≠ some user)
    (began : (w.identify event remote).1.coordinator.owner = some user)
    {document : Json} (exported : (w.identify event remote).1.coordinator.plan.toJson = .ok document)
    (run : Runs Allowed step (start (w.identify event remote).1) l) {i : Nat}
    (ended : (l.world.act (.finish i)).2.ended = some .rolledBack) :
    ∃ failure faults, (l.world.act (.finish i)).2.told = some (failure, faults) ∧
      (l.takenBack i).map (·.1) = failure.mutations ∧ (l.takenBack i).Pairwise (·.2 < ·.2) ∧
      (∀ x ∈ l.takenBack i, ∀ y ∈ l.committed, x.2 ≠ y.2) ∧
      ∃ es q, Replays (fun _ => True) (l.world.act (.finish i)).1.coordinator.plan failure.mutations es q ∧
        Reordered q l.world.coordinator.plan := by
  have anything : Orderless fun _ => True := fun _ _ _ _ => trivial
  have kept : ∃ c : Chronicle, c.world = l.world ∧ c.Told (fun _ => True) user w.coordinator.fresh ∧
      l.Balanced := by
    have told := Chronicle.told_start (P := fun _ => True) hw hu ho began exported
    have hq : (w.identify event remote).1.coordinator.queued = none := by
      obtain ⟨backend, plan, cache, log, state, -, he⟩ := w.identify_frame hu ho began
      simp [he, Coordinator.ended]
    have hf : (w.identify event remote).1.flights = [] := by
      obtain ⟨backend, plan, cache, log, state, -, he⟩ := w.identify_frame hu ho began
      simp [he]
    refine run.keeps (P := fun l => ∃ c : Chronicle, c.world = l.world ∧
      c.Told (fun _ => True) user w.coordinator.fresh ∧
      l.Balanced) ⟨_, rfl, told, balanced_start hq hf⟩ fun k e hk he => ?_
    obtain ⟨c, hc, ht, hb⟩ := hk
    have steady : c.world.SteadyIn (fun _ => True) e := by
      refine ⟨by rw [hc]; exact he, ?_⟩
      cases e with
      | act a => cases a <;> simp [Act.Makes]
      | late a => trivial
      | identity => trivial
    exact ⟨c.step e, by rw [c.step_world, step_world, hc], ht.step anything steady, hb.step hc ht he⟩
  obtain ⟨c, hc, ht, hb⟩ := kept
  obtain ⟨f, hr⟩ : ∃ f, World.ready? l.world.flights i = some f := by
    cases hr : World.ready? l.world.flights i with
    | some f => exact ⟨f, rfl⟩
    | none => simp [World.act, hr] at ended
  obtain ⟨⟨failure, faults, htold, -, hms⟩, alone, -, fit, restored, -, es, q, hlog⟩ :=
    ht.rolledBack (hc ▸ hr) (hc ▸ ended)
  rw [hc] at htold alone fit restored hlog
  obtain ⟨hflights, rfl, -⟩ := (hc ▸ ht.kept.orderly : l.world.Orderly user _).ready hr
  obtain ⟨a, hcarries⟩ := hb.writing f (by simp [hflights])
  -- nothing waits, so the mutations of the write are the last ones that stand
  obtain ⟨rest, hstanding, hnone, -⟩ := hcarries.standing hb
  rw [hnone alone, List.append_nil] at hstanding
  have numbered : (a.point ++ a.items).Pairwise (·.2 < ·.2) := hstanding ▸ hb.numbered
  have taken : l.takenBack 0 = a.items := by
    simp only [takenBack, hcarries.only, List.getElem?_cons_zero, hstanding]
    exact filter_after numbered
  have origins : Reordered (origin f.batch.snapshot) (l.world.act (.finish 0)).1.coordinator.plan :=
    .of_eq restored.symm
  obtain ⟨q', replays, hqq⟩ := hlog.replays.reorder anything (origins.symm.valid fit.valid) origins
  rw [taken]
  refine ⟨failure, faults, htold, hcarries.items.trans hms.symm, (List.pairwise_append.1 numbered).2.1,
    fun x hx y hy => ?_, es, q', hms ▸ replays, hqq.symm.trans hlog.leads⟩
  exact Nat.ne_of_gt (hcarries.later y hy x hx)

/-- A course is completed, and while this is written another one is added. The write fails and waits
again with the new course; the second write fails as well, and both mutations are taken back. -/
theorem takes_back_told_overtaken :
    let remote : Remote := { stored := some (.ok (.arr [.obj [("id", .int 202400), ("courses", .arr
      [.obj [("id", .int 1), ("code", .str "CS 101"), ("semester_id", .int 202400)]])]])) }
    let arrival : IdentityEvent := { user := some "user-a", kind := .signedIn }
    let v := (World.identify { coordinator := .new 0.4 none } arrival remote).1
    let course : Entry := { id := .int 2, code := .str "CS 102", title := .str "", credits := 3, status := .planned
                            semester := .int 202400, grade := none }
    let events : List Event :=
      [.act (.mutate (.setStatus (.int 202400) (.int 1) (.str "completed") .null)), .act .flush,
      .act (.mutate (.add course)), .act (.reply 0 .rejected), .act (.finish 0), .act .flush, .act (.reply 0 .rejected)]
    let l := events.foldl step (start v)
    (l.takenBack 0).map (·.2) = [0, 1] ∧
      ∃ failure faults, (l.world.act (.finish 0)).2.told = some (failure, faults) ∧
        failure.mutations.length = 2 := by
  intro remote arrival v course events l
  have written : v.coordinator.plan.toJson.toOption.isSome = true := by decide +kernel
  obtain ⟨document, exported⟩ := ok_of_isSome written
  have run : Runs Allowed step (start v) l := Runs.start.all events (by decide +kernel)
  have user : arrival.user = some "user-a" := rfl
  have taken : (l.takenBack 0).map (·.2) = [0, 1] := by decide +kernel
  obtain ⟨failure, faults, htold, htaken, -⟩ :=
    takes_back_told (.new 0.4 none) user nofun (by decide +kernel) exported run (i := 0) (by decide +kernel)
  refine ⟨taken, failure, faults, htold, ?_⟩
  rw [← htaken, List.length_map, ← List.length_map (f := (·.2)), taken]
  rfl

/-- A course is completed, and while this is written another one is added in a write of its own, which
is committed. The first write fails and waits again, and when it fails once more the rollback takes both
mutations back, but the failure tells only the first. -/
theorem takes_back_committed :
    let remote : Remote := { stored := some (.ok (.arr [.obj [("id", .int 202400), ("courses", .arr
      [.obj [("id", .int 1), ("code", .str "CS 101"), ("semester_id", .int 202400)]])]])) }
    let arrival : IdentityEvent := { user := some "user-a", kind := .signedIn }
    let v := (World.identify { coordinator := .new 0.4 none } arrival remote).1
    let course : Entry := { id := .int 2, code := .str "CS 102", title := .str "", credits := 3, status := .planned
                            semester := .int 202400, grade := none }
    let events : List Event :=
      [.act (.mutate (.setStatus (.int 202400) (.int 1) (.str "completed") .null)), .act .flush,
      .act (.mutate (.add course)), .act .flush, .act (.reply 1 .accepted), .act (.finish 1), .act (.reply 0 .rejected),
      .act (.finish 0), .act .flush, .act (.reply 0 .rejected)]
    let l := events.foldl step (start v)
    (l.world.act (.finish 0)).2.ended = some .rolledBack ∧ (l.takenBack 0).map (·.2) = [0, 1] ∧
      l.committed.map (·.2) = [1] ∧ (l.world.act (.finish 0)).2.told.map (·.1.mutations.length) = some 1 ∧
      l.world.coordinator.plan.entries.map (·.status) = [.completed, .planned] ∧
      (l.world.act (.finish 0)).1.coordinator.plan.entries.map (·.status) = [.planned] := by
  decide +kernel

end Ledger
end DegreePlan.Sync
