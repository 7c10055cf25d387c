import DegreePlan.Proofs.Sync.Deployment
import DegreePlan.Proofs.Sync.Effect

/-!
# The archive as a mirror of the plan

The rows of the signed-in user follow the plan. While something waits or is written, they may lag behind
in the semesters that are named there and in no others. So when nothing waits and nothing is written, the
rows are read back as the plan, unless a write was taken back.
-/

namespace DegreePlan.Sync

open Plan Archive

/-! ## Sessions without a write that is taken back -/

/-- A course that is added can be read back: code and title are texts, and the id compares equal to itself, as all
ids do but the one that is not a number. -/
def Mutation.Legible : Mutation → Prop
  | .add e => e.Textual ∧ e.id.equals e.id = true
  | _ => True

instance : DecidablePred Mutation.Legible
  | .add e => inferInstanceAs (Decidable (e.Textual ∧ e.id.equals e.id = true))
  | .remove .. | .move .. | .setStatus .. | .setGrade .. | .generate .. | .clearPlanned => instDecidableTrue

theorem Mutation.Legible.numbers {m : Mutation} (h : m.Legible) : ∀ id ∈ m.brought, id.isNaN = false := by
  cases m with
  | add e => exact List.forall_mem_singleton.2 ((Json.isNaN_canonical e.id).trans (Json.equals_self.1 h.2))
  | _ => exact nofun

/-- Courses that are added can be read back. -/
def Act.Legible : Act → Prop
  | .mutate m => m.Legible
  | .retry failure => ∀ m ∈ failure.mutations, m.Legible
  | _ => True

instance : DecidablePred Act.Legible
  | .mutate m => inferInstanceAs (Decidable m.Legible)
  | .retry failure => inferInstanceAs (Decidable (∀ m ∈ failure.mutations, m.Legible))
  | .flush | .expire | .reply .. | .finish _ | .close | .listen _ | .unlisten _ => instDecidableTrue

/-- The batch names the semester. -/
def Batch.Names (b : Batch) (s : Semester) : Prop := (Json.int s.id).isIn b.semesters = true

/-- The semester waits to be written. -/
def Coordinator.Waits (c : Coordinator) (s : Semester) : Prop := ∃ b ∈ c.queued, b.Names s

theorem names_push {b : Batch} {m : Mutation} {e : Effect} {s : Semester} :
    (b.push m e).Names s ↔ b.Names s ∨ (Json.int s.id).isIn e.semesters = true := by
  simp [Batch.Names, Batch.push, Json.isIn_append]

theorem names_prepend {b earlier : Batch} {s : Semester} :
    (b.prepend earlier).Names s ↔ b.Names s ∨ earlier.Names s := by
  simp [Batch.Names, Batch.prepend, Json.isIn_append]

theorem waits_some {c : Coordinator} {b : Batch} {s : Semester} (h : c.queued = some b) : c.Waits s ↔ b.Names s := by
  simp [Coordinator.Waits, h]

theorem not_waits {c : Coordinator} (h : c.queued = none) (s : Semester) : ¬ c.Waits s := by
  simp [Coordinator.Waits, h]

/-- After a write was put off, what waited waits and what it had to write. -/
theorem waits_put_off {c d : Coordinator} {b b₀ : Batch} {s : Semester} (hq : d.queued = some (b₀.prepend b))
    (hb : c.queued = some b₀ ∨ c.queued = none ∧ b₀.semesters = []) :
    d.Waits s ↔ c.Waits s ∨ b.Names s := by
  rw [waits_some hq, names_prepend]
  rcases hb with hb | ⟨idle, new⟩
  · rw [waits_some hb]
  · exact or_congr_left (iff_of_false (by simp [Batch.Names, new, Json.isIn]) (not_waits idle s))

/-- The coordinator with some of the semesters of its plan. -/
def Coordinator.only (P : Semester → Bool) (c : Coordinator) : Coordinator := { c with plan := c.plan.only P }

/-- The write of some of the semesters of its plan. -/
def Flight.only (P : Semester → Bool) (f : Flight) : Flight := { f with plan := f.plan.only P }

theorem Coordinator.only_true (c : Coordinator) : c.only (fun _ => true) = c := by
  rw [Coordinator.only, Plan.only, List.filter_true]

theorem Flight.only_true (f : Flight) : f.only (fun _ => true) = f := by
  rw [Flight.only, Plan.only, List.filter_true]

namespace Deployment

/-- What may happen in a session in which no write is taken back. -/
def Allowed (d : Deployment) (e : Event) : Prop :=
  (d.archive? e).isSome ∧ (d.world.step e).2.ended ≠ some .rolledBack ∧
    match e with
    | .act a => a.Allowed d.world ∧ a.Legible
    | .late _ => True
    | .identity event _ => event.kind ≠ .signedOut ∧ event.user.isSome ∧ event.user = d.world.coordinator.owner

instance (d : Deployment) : (e : Event) → Decidable (d.Allowed e)
  | .act a =>
    inferInstanceAs (Decidable ((d.archive? (.act a)).isSome ∧
      (d.world.step (.act a)).2.ended ≠ some .rolledBack ∧
      a.Allowed d.world ∧ a.Legible))
  | .late a =>
    inferInstanceAs (Decidable ((d.archive? (.late a)).isSome ∧
      (d.world.step (.late a)).2.ended ≠ some .rolledBack ∧
      True))
  | .identity event remote => inferInstanceAs (Decidable ((d.archive? (.identity event remote)).isSome ∧
      (d.world.step (.identity event remote)).2.ended ≠ some .rolledBack ∧
        event.kind ≠ .signedOut ∧ event.user.isSome ∧ event.user = d.world.coordinator.owner))

/-! ## What every step keeps -/

/-- What is known of a write and of the rows that it writes to. -/
structure Writing (user : String) (c : Coordinator) (rows : List Row) (f : Flight) : Prop where
  backend : f.backend = some user
  storable : ∀ s ∈ f.plan.semesters, s.Storable
  /-- What the batch does not name is stored. -/
  clean : ∀ s ∈ f.plan.semesters, ¬ f.batch.Names s → Stored rows s
  /-- What the batch names is stored or will be saved, unless the write has failed. -/
  sent : f.cause = none → ∀ s ∈ f.plan.semesters, f.batch.Names s → Stored rows s ∨
    ∃ json, s.toJson = .ok json ∧ .save json ∈ f.left
  deletes : ∀ ids, .delete ids ∈ f.left → ∀ e ∈ f.plan.entries, e.id.isIn ids = false
  saves : ∀ json, .save json ∈ f.left → ∃ s ∈ f.plan.semesters, f.batch.Names s ∧ s.toJson = .ok json
  /-- What does not wait is as it is written. -/
  since : ∀ s ∈ c.plan.semesters, ¬ c.Waits s → s ∈ f.plan.semesters
  grown : f.plan.semesters.map (·.id) ⊆ c.plan.semesters.map (·.id)

/-- What holds throughout a session in which no write is taken back. -/
structure Mirrored (user : String) (first : Nat) (d : Deployment) : Prop where
  orderly : d.world.Orderly user first
  backend : d.world.coordinator.backend = some user
  uncached : d.world.coordinator.cache = none
  storable : ∀ s ∈ d.world.coordinator.plan.semesters, s.Storable
  separate : Separate d.world.coordinator.plan
  follows : Follows (d.archive.rows user) d.world.coordinator.plan
  resting : d.world.flights = [] → ∀ s ∈ d.world.coordinator.plan.semesters, ¬ d.world.coordinator.Waits s →
    Stored (d.archive.rows user) s
  writing : ∀ f ∈ d.world.flights, Writing user d.world.coordinator (d.archive.rows user) f
  late : ∀ f ∈ d.world.late, f.backend ≠ some user

variable {user : String} {first : Nat} {d : Deployment} {c c' : Coordinator} {rows rows' : List Row}
  {f : Flight} {p q : Plan}

open Coordinator

/-- The plan and the batch stayed as they were. -/
theorem Writing.rest (h : Writing user c rows f) (hp : c'.plan = c.plan) (hq : c'.queued = c.queued) :
    Writing user c' rows f :=
  { h with
    since := by simpa only [Waits, hp, hq] using h.since
    grown := hp ▸ h.grown }

/-- The writes, the plan and the batch stayed as they were, and so did the rows. -/
theorem Mirrored.rest (h : d.Mirrored user first) {w : World} (ho : w.Orderly user first)
    (hs : Stays d.world.coordinator w.coordinator) (hf : w.flights = d.world.flights)
    (hp : w.coordinator.plan = d.world.coordinator.plan)
    (hq : w.coordinator.queued = d.world.coordinator.queued) (hl : ∀ f ∈ w.late, f.backend ≠ some user)
    {archive : Archive} (hr : archive.rows user = d.archive.rows user) :
    Mirrored user first { world := w, archive } where
  orderly := ho
  backend := hs.backend.trans h.backend
  uncached := hs.cache h.uncached
  storable := hp ▸ h.storable
  separate := hp ▸ h.separate
  follows := by simpa only [hp, hr] using h.follows
  resting := by simpa only [Waits, hf, hp, hq, hr] using h.resting
  writing f hm := hr ▸ (h.writing f (hf ▸ hm)).rest hp hq
  late := hl

/-- Rows that follow a plan follow it when it was changed. -/
theorem follows_shaped (h : Follows rows p) (hs : Shaped p q) : Follows rows q := by
  refine ⟨h.ids, fun i hi => ids_shaped hs (h.known hi), ?_⟩
  rcases h.order with ho | ht
  · rcases hs.ids with hp | hq
    · rcases hs.times with ht | ht
      · exact .inr (by rw [ht, hp]; exact List.nodup_nil)
      · exact .inr ht
    · exact .inl (ho.trans hq.symm)
  · exact .inr (hs.times.elim (fun he => he ▸ ht) id)

/-- Semesters that can be stored can be stored when they were changed. -/
theorem storable_done {m : Mutation} {e : Effect} (hs : ∀ s ∈ p.semesters, s.Storable) (hv : p.Valid)
    (hm : Done p m e q) (ht : m.Legible) : ∀ s ∈ q.semesters, s.Storable := by
  have shape : ∀ s ∈ q.semesters, (Term.ofId? s.id).isSome ∧ ∃ n : Int, n ≠ 0 ∧ s.maxCredits = .int n :=
    hm.shaped.semesters (fun s hm => ⟨(hs s hm).term, (hs s hm).maxCredits⟩) (fun _ _ h => h)
      fun t _ => ⟨by simp [Semester.ofTerm, Term.ofId_id], 18, by decide, rfl⟩
  intro s hq
  refine ⟨(shape s hq).1, (shape s hq).2, fun c hc => ?_, (hm.made hv).valid.held s hq⟩
  rcases hm.courses c (mem_entries.2 ⟨s, hq, hc⟩) with rfl | ⟨x, hx, hxc⟩
  · exact ht.1
  · obtain ⟨t, hmem, hx⟩ := mem_entries.1 hx
    obtain ⟨hcode, htitle⟩ := (hs t hmem).textual x hx
    exact ⟨hxc.code ▸ hcode, hxc.title ▸ htitle⟩

/-- What does not wait after a mutation was not named by it, so it is as it was and did not wait before. -/
theorem before_made {m : Mutation} {e : Effect} {b : Batch} (made : Made c.plan c'.plan e)
    (hq : c'.queued = some (b.push m e)) (hb : c.queued = some b ∨ c.queued = none) {s : Semester}
    (hs : s ∈ c'.plan.semesters) (hw : ¬ c'.Waits s) : s ∈ c.plan.semesters ∧ ¬ c.Waits s := by
  rw [waits_some hq, names_push, not_or] at hw
  refine ⟨(made.covered s hs).resolve_right hw.2, ?_⟩
  rcases hb with hb | hn
  · rw [waits_some hb]; exact hw.1
  · exact not_waits hn s

/-- A mutation that is made names every semester that it changes. -/
theorem Mirrored.apply (h : d.Mirrored user first) {m : Mutation} (hm : m.Plain) (ht : m.Legible) :
    Mirrored user first { d with
        world := { d.world with coordinator := ((Coordinator.apply m).run d.world.coordinator).2 } } := by
  have ho := h.orderly.apply hm
  obtain ⟨stays, -, ⟨hp, hq⟩ | ⟨snapshot, e, b, -, hmade, -, hq, hb⟩⟩ := d.world.coordinator.apply_made m
  · exact h.rest ho stays rfl hp hq h.late rfl
  generalize ((Coordinator.apply m).run d.world.coordinator).2 = c at ho stays hmade hq ⊢
  have done := Mutation.done hmade
  have made := done.made h.orderly.plan.valid
  have before := @before_made d.world.coordinator c m e b made hq (hb.imp_right And.left)
  refine ⟨ho, stays.backend.trans h.backend, stays.cache h.uncached,
    storable_done h.storable h.orderly.plan.valid done ht, done.separate h.orderly.plan.valid h.separate ht.numbers,
    follows_shaped h.follows done.shaped,
    fun hf s hs hw => ?_, fun f hf => ?_, h.late⟩
  · exact h.resting hf s (before hs hw).1 (before hs hw).2
  · have hw := h.writing f hf
    exact { hw with
      since := fun s hs hn => hw.since s (before hs hn).1 (before hs hn).2
      grown := fun i hi => ids_shaped done.shaped (hw.grown hi) }

/-- A write that begins saves all that the batch names and deletes nothing that is in the plan. What it is to leave
behind of some semesters of the plan, it leaves behind if what the batch does not name of them is stored. -/
theorem writing_begun {b : Batch} {ps gone : List Json} (rows : List Row) (P : Semester → Bool)
    (hp : Fit user c.plan) (hb : b.Fit user) (backend : c.backend = some user)
    (storable : ∀ s ∈ c.plan.semesters, s.Storable) (ha : Averaged c.plan)
    (hps : payloads c.plan (c.closed b) = .ok ps) (hgone : goneIds c.plan (c.closed b) = .ok gone)
    (named : ∀ s ∈ c.plan.semesters, b.Names s → P s = true)
    (clean : ∀ s ∈ c.plan.semesters, P s = true → ¬ b.Names s → Stored rows s) (same : c'.plan = c.plan) :
    Writing user (c'.only P) rows
      ((Flight.start c.plan (c.closed b) { backend := c.backend, deleted := gone, payloads := ps }).only P) := by
  have hfit := c.fit_closed hb
  have hsaved (json : Json) : json ∈ ps ↔ _ := mem_payloads_iff hp hfit ha hps
  have hdeleted := isIn_goneIds hp hfit hgone
  generalize hf : Flight.start c.plan (c.closed b) { backend := c.backend, deleted := gone, payloads := ps } = f
  have hbatch : f.batch = c.closed b := by rw [← hf, Flight.start_batch]
  have hplan : f.plan = c.plan := by rw [← hf, Flight.start_plan]
  have hleft : f.left = _ := hf ▸ Flight.start_left c.plan (c.closed b)
    (w := { backend := c.backend, deleted := gone, payloads := ps }) backend
  have within {s : Semester} (hs : s ∈ (f.only P).plan.semesters) : s ∈ c.plan.semesters ∧ P s = true :=
    hplan ▸ mem_only.1 hs
  refine ⟨by rw [← backend, ← hf]; exact Flight.start_backend .., fun s hs => storable s (within hs).1,
    fun s hs hn => ?_, fun _ s hs hn => ?_, fun ids hids e he => ?_, fun json hj => ?_, fun s hs _ => ?_, ?_⟩
  · change ¬ f.batch.Names s at hn
    rw [hbatch] at hn
    exact clean s (within hs).1 (within hs).2 hn
  · change f.batch.Names s at hn
    rw [hbatch] at hn
    obtain ⟨x, hx⟩ := ha s (within hs).1
    obtain ⟨json, hj⟩ := toJson_ok hx
    refine .inr ⟨json, hj, ?_⟩
    change _ ∈ f.left
    rw [hleft, save_mem_calls]
    exact (hsaved json).2 ⟨s, (within hs).1, hn, hj⟩
  · obtain rfl := delete_mem_calls (hleft ▸ hids)
    obtain ⟨s, hs, hes⟩ := mem_entries.1 he
    exact hdeleted e (mem_entries.2 ⟨s, (within hs).1, hes⟩)
  · change _ ∈ f.left at hj
    rw [hleft, save_mem_calls, hsaved] at hj
    obtain ⟨s, hs, hn, hj⟩ := hj
    exact ⟨s, mem_only.2 ⟨hplan ▸ hs, named s hs hn⟩, hbatch ▸ hn, hj⟩
  · exact mem_only.2 ⟨hplan ▸ same ▸ (mem_only.1 hs).1, (mem_only.1 hs).2⟩
  · rw [show (f.only P).plan = (c'.only P).plan from congrArg (Plan.only P) (hplan.trans same.symm)]
    exact List.Subset.refl _

/-- A flush begins to write what waits. -/
theorem Mirrored.launch (h : d.Mirrored user first)
    (hl : d.world.coordinator.queued.isSome → d.world.flights = [] ∧ Averaged d.world.coordinator.plan) :
    Mirrored user first { d with world := d.world.launch.1 } := by
  have ho := h.orderly.launch hl
  rcases h.orderly.launch_cases hl with ⟨-, hr⟩ | ⟨b, ps, gone, hq, hf, ha, hps, hgone, f, hstart, hr⟩
  · rw [hr] at ho ⊢
    exact h.rest ho (stays_stopTimer _) rfl (stopTimer_plan _) (stopTimer_queued _) h.late rfl
  rw [hr] at ho ⊢
  refine ⟨ho, (stopTimer_backend _).trans h.backend, (stopTimer_cache _).trans h.uncached, by simpa using h.storable,
    by simpa using h.separate, by simpa using h.follows, nofun, fun g hg => ?_, h.late⟩
  have begun (c' : Coordinator) (same : c'.plan = d.world.coordinator.plan) :
      Writing user c' (d.archive.rows user) f := by
    have begun := writing_begun (d.archive.rows user) (fun _ => true) h.orderly.plan (h.orderly.queued b hq).1 h.backend
      h.storable ha hps hgone (fun _ _ _ => rfl)
      (fun s hs _ hn => h.resting hf s hs (by rw [waits_some hq]; exact hn)) same
    rwa [Coordinator.only_true, Flight.only_true, ← hstart] at begun
  rw [List.mem_singleton.1 hg]
  exact begun _ (stopTimer_plan _)

/-! ## Answers -/

/-- The row of a save is of a semester that is written, and holds it. -/
theorem Writing.saved (h : Writing user c rows f) {json : Json} (hj : .save json ∈ f.left) {r : Row}
    (hr : Row.ofJson json = .ok r) : ∃ s ∈ f.plan.semesters, f.batch.Names s ∧ r.Holds s := by
  obtain ⟨s, hs, hn, hj⟩ := h.saves json hj
  exact ⟨s, hs, hn, Row.holds_of_save (h.storable s hs) hj hr⟩

theorem Writing.known (h : Writing user c rows f) {json : Json} (hj : .save json ∈ f.left) {r : Row}
    (hr : Row.ofJson json = .ok r) : r.id ∈ c.plan.semesters.map (·.id) := by
  obtain ⟨s, hs, -, hh⟩ := h.saved hj hr
  exact h.grown (hh.id_eq ▸ List.mem_map_of_mem hs)

/-- A request that is carried out keeps the rows after the plan. -/
theorem Writing.follows (h : Writing user c rows f) {call : Call} (hc : call ∈ f.left)
    (hp : Performed rows call rows') (hf : Follows rows c.plan) : Follows rows' c.plan := by
  cases hp with
  | deleted hd => exact hf.of_ids (ids_dropFrom hd)
  | saved hr => exact hf.putRow (h.known hc hr)

theorem Writing.within (h : Writing user c rows f) {call : Call} (hc : call ∈ f.left) (hp : Performed rows call rows')
    (hw : Within rows c.plan) : Within rows' c.plan := by
  cases hp with
  | deleted hd => exact hw.of_ids (ids_dropFrom hd)
  | saved hr => exact hw.putRow (h.known hc hr)

/-- What neither waits nor was named by the batch is stored. -/
theorem Writing.kept (h : Writing user c rows f) {s : Semester} (hs : s ∈ c.plan.semesters) (hn : ¬ c.Waits s)
    (hb : ¬ f.batch.Names s) : Stored rows s := h.clean s (h.since s hs hn) hb

/-- When the write has succeeded, all that does not wait is stored. -/
theorem Writing.succeeded (h : Writing user c rows f) (hl : f.left = []) (hcause : f.cause = none) {s : Semester}
    (hs : s ∈ c.plan.semesters) (hn : ¬ c.Waits s) : Stored rows s := by
  by_cases hb : f.batch.Names s
  · rcases h.sent hcause s (h.since s hs hn) hb with hst | ⟨json, -, hmem⟩
    · exact hst
    · rw [hl] at hmem; cases hmem
  · exact h.kept hs hn hb

/-- A request that is carried out brings the write on. -/
theorem Writing.performed (h : Writing user c rows f) (hids : (f.plan.semesters.map (·.id)).Nodup)
    {call : Call} {rest : List Call} (hl : f.left = call :: rest) (hp : Performed rows call rows') :
    Writing user c rows' { f with left := rest } := by
  have hc : call ∈ f.left := by simp [hl]
  have sent := fun hcause s hs hn => hl ▸ h.sent hcause s hs hn
  have more : ∀ x ∈ rest, x ∈ f.left := fun x hx => by simp [hl, hx]
  suffices (∀ s ∈ f.plan.semesters, ¬ f.batch.Names s → Stored rows' s) ∧
    (f.cause = none → ∀ s ∈ f.plan.semesters, f.batch.Names s →
      Stored rows' s ∨ ∃ json, s.toJson = .ok json ∧ .save json ∈ rest) from
    { h with
      clean := this.1, sent := this.2
      deletes := fun ids hids => h.deletes ids (more _ hids)
      saves := fun json hj => h.saves json (more _ hj) }
  cases hp with
  | deleted hd =>
    have stays : ∀ s ∈ f.plan.semesters, Stored rows s → Stored rows' s := fun s hs hst =>
      hst.dropFrom hd fun e he => h.deletes _ hc e (mem_entries.2 ⟨s, hs, he⟩)
    refine ⟨fun s hs hn => stays s hs (h.clean s hs hn), fun hcause s hs hn => ?_⟩
    rcases sent hcause s hs hn with hst | ⟨json, hj, hmem⟩
    · exact .inl (stays s hs hst)
    · exact .inr ⟨json, hj, (List.mem_cons.1 hmem).resolve_left nofun⟩
  | @saved payload r hr =>
    obtain ⟨s₀, hs₀, hn₀, hh⟩ := h.saved hc hr
    have stays : ∀ s ∈ f.plan.semesters, Stored rows s → Stored (putRow r rows) s := by
      intro s hs hst
      by_cases hid : s.id = s₀.id
      · obtain rfl : s = s₀ := List.inj_on_of_nodup_map hids hs hs₀ hid
        exact ⟨r, mem_putRow_self r rows, hh⟩
      · exact hst.putRow (hh.id_eq ▸ hid)
    refine ⟨fun s hs hn => stays s hs (h.clean s hs hn), fun hcause s hs hn => ?_⟩
    rcases sent hcause s hs hn with hst | ⟨json, hj, hmem⟩
    · exact .inl (stays s hs hst)
    · rcases List.mem_cons.1 hmem with heq | hmem
      · cases heq
        exact .inl ⟨r, mem_putRow_self r rows, Row.holds_of_save (h.storable s hs) hj hr⟩
      · exact .inr ⟨json, hj, hmem⟩

/-- A write that has failed sends no more requests. -/
theorem Writing.failed (h : Writing user c rows f) (cause : String) :
    Writing user c rows { f with left := [], cause := some cause } :=
  { h with sent := nofun, deletes := nofun, saves := nofun }

/-- An answer changes nothing, or the call was carried out, or the write has failed. -/
theorem reply_cases (ho : d.world.Orderly user first) (hb : ∀ f ∈ d.world.flights, f.backend = some user)
    (i : Nat) {r : Reply} {archive : Archive} (ha : answered d.archive d.world.flights i r = some archive) :
    ((World.answered d.world.flights i r).1 = d.world.flights ∧ archive = d.archive) ∨
    ∃ f call rest, d.world.flights = [f] ∧ f.left = call :: rest ∧
      ((World.answered d.world.flights i r).1 = [{ f with left := rest }] ∧
        Performed (d.archive.rows user) call (archive.rows user) ∨
      ∃ cause, (World.answered d.world.flights i r).1 = [{ f with left := [], cause := some cause }] ∧
        archive = d.archive) := by
  cases hi : d.world.flights[i]? with
  | none =>
    have same : archive = d.archive := by cases r <;> simpa [answered, hi] using ha.symm
    exact .inl ⟨by simp only [World.answered, hi], same⟩
  | some f =>
    obtain ⟨hf, rfl⟩ := ho.only hi
    simp only [World.answered, hf, List.getElem?_cons_zero, List.set_cons_zero]
    cases hl : f.left with
    | nil =>
      have same : archive = d.archive := by cases r <;> simpa [answered, hi, Flight.call?, hl] using ha.symm
      exact .inl ⟨by simp [Flight.answer, hl], same⟩
    | cons call rest =>
      refine .inr ⟨f, call, rest, rfl, hl, ?_⟩
      rcases Flight.answer_cons hl r with ⟨rfl, hans⟩ | ⟨hr, cause, hans⟩ <;> rw [hans]
      · have hp : call.perform d.archive user = some archive := by
          simpa [answered, hi, Flight.call?, hb f (by simp [hf]), hl] using ha
        exact .inl ⟨rfl, (Call.perform_eq_some hp).1⟩
      · refine .inr ⟨cause, rfl, ?_⟩
        cases r with
        | accepted => exact absurd rfl hr
        | rejected | failed => simpa [answered] using ha.symm

/-- The write of the session came on, and perhaps the rows with it. -/
theorem Mirrored.came (h : d.Mirrored user first) {g : Flight} {archive : Archive}
    (ho : ({ d.world with flights := [g] } : World).Orderly user first)
    (hw : Writing user d.world.coordinator (archive.rows user) g)
    (hfollows : Follows (archive.rows user) d.world.coordinator.plan) :
    Mirrored user first { world := { d.world with flights := [g] }, archive } where
  orderly := ho
  backend := h.backend
  uncached := h.uncached
  storable := h.storable
  separate := h.separate
  follows := hfollows
  resting := nofun
  writing _ hx := List.mem_singleton.1 hx ▸ hw
  late := h.late

/-- An answer brings the write of the session on. -/
theorem Mirrored.reply (h : d.Mirrored user first) (i : Nat) (r : Reply) {archive : Archive}
    (ha : answered d.archive d.world.flights i r = some archive) :
    Mirrored user first { world := { d.world with flights := (World.answered d.world.flights i r).1 }, archive } := by
  have ho := h.orderly.reply i r
  rcases reply_cases h.orderly (fun f hf => (h.writing f hf).backend) i ha with
    ⟨same, rfl⟩ | ⟨f, call, rest, hf, hl, ⟨goes, hp⟩ | ⟨cause, fails, rfl⟩⟩
  · rw [same]
    exact h
  · have hw := h.writing f (by simp [hf])
    rw [goes] at ho ⊢
    exact h.came ho (hw.performed (h.orderly.flights f (by simp [hf])).plan.valid.ids hl hp)
      (hw.follows (by simp [hl]) hp h.follows)
  · rw [fails] at ho ⊢
    exact h.came ho ((h.writing f (by simp [hf])).failed cause) h.follows

/-- The end of a write that is not taken back: the rows are left behind by what waits at most. -/
theorem Mirrored.finish (h : d.Mirrored user first) (hf : d.world.flights = [f]) (hl : f.left = [])
    (hr : (Report.ofFlushed ((finishFlush f.batch f.cause).run d.world.coordinator).1).ended ≠ some .rolledBack) :
    Mirrored user first { d with world := { d.world with
      coordinator := ((finishFlush f.batch f.cause).run d.world.coordinator).2, flights := [] } } := by
  have ho := h.orderly.finish hf
  have hw := h.writing f (by simp [hf])
  obtain ⟨stays, hcases⟩ := h.orderly.finish_cases hf
  generalize (finishFlush f.batch f.cause).run d.world.coordinator = r at ho hr stays hcases ⊢
  dsimp only
  have rest (hp : r.2.plan = d.world.coordinator.plan)
      (hs : ∀ s ∈ d.world.coordinator.plan.semesters, ¬ r.2.Waits s → Stored (d.archive.rows user) s) :
      Mirrored user first { d with world := { d.world with coordinator := r.2, flights := [] } } :=
    ⟨ho, stays.backend.trans h.backend, stays.cache h.uncached, hp ▸ h.storable, hp ▸ h.separate,
      hp ▸ h.follows, fun _ => hp ▸ hs, nofun, h.late⟩
  rcases hcases with ⟨hcause, -, hp, hq⟩ | ⟨-, -, -, hp, b₀, hq, hb⟩ | ⟨-, -, -, -, hx, hok⟩
  · exact rest hp fun s hs hn => hw.succeeded hl hcause hs (by simpa only [Waits, hq] using hn)
  · refine rest hp fun s hs hn => ?_
    rw [waits_put_off hq (hb.imp_right (And.imp_right fun new => by rw [new])), not_or] at hn
    exact hw.kept hs hn.1 hn.2
  · obtain ⟨x, hr'⟩ := hok (.inl h.uncached)
    exact absurd (by simp only [hr', Report.ofFlushed, hx x hr']) hr

/-! ## Runs -/

theorem late_lateAct {w : World} (h : ∀ f ∈ w.late, f.backend ≠ some user) (a : LateAct) :
    ∀ f ∈ (w.lateAct a).1.late, f.backend ≠ some user := by
  intro f hf
  cases a with
  | reply i r =>
    obtain ⟨g, hg, -, -, hb⟩ := World.mem_answered hf
    rw [hb]; exact h g hg
  | finish i =>
    simp only [World.lateAct] at hf
    split at hf
    · exact h f hf
    · exact h f (List.mem_of_mem_eraseIdx hf)

/-- An answer to a write of another user changes no row of the user. -/
theorem rows_answered {a b : Archive} {fs : List Flight} (h : ∀ f ∈ fs, f.backend ≠ some user)
    {i : Nat} {r : Reply} (hb : answered a fs i r = some b) : b.rows user = a.rows user := by
  cases r with
  | accepted =>
    simp only [answered] at hb
    split at hb
    · next other call hcall =>
      obtain ⟨f, hf, hc⟩ := Option.bind_eq_some_iff.1 hcall
      have hne := h f (List.mem_of_getElem? hf)
      exact (Call.perform_eq_some hb).2 user fun he => hne (he ▸ (Flight.call?_eq_some hc).1)
    · cases hb; rfl
  | rejected | failed => cases hb; rfl

/-- An event of the owner changes nothing. -/
theorem identify_owner {w : World} {event : IdentityEvent} (hk : event.kind ≠ .signedOut) (hu : event.user.isSome)
    (ho : event.user = w.coordinator.owner) (remote : Remote) : w.identify event remote = (w, {}) := by
  obtain ⟨other, hu⟩ := Option.isSome_iff_exists.1 hu
  have hk' : (event.kind == EventKind.signedOut) = false := by simpa using hk
  have same : (handle event fun _ => remote).run w.coordinator = (.ok (), w.coordinator) := by
    simp [handle, hk', hu, run_bind, ← ho]
  simp [World.identify, same, Report.ofResult]

/-- Every step of a session keeps what holds throughout it. -/
theorem Mirrored.step (h : d.Mirrored user first) {e : Event} (ha : d.Allowed e) : (d.step e).Mirrored user first := by
  obtain ⟨harchive, hended, ha⟩ := ha
  obtain ⟨archive, harchive⟩ := Option.isSome_iff_exists.1 harchive
  simp only [Deployment.step, harchive, Option.getD_some]
  cases e with
  | identity event remote =>
    cases harchive
    rw [World.step, identify_owner ha.1 ha.2.1 ha.2.2]
    exact h
  | late a =>
    obtain ⟨ho, stays, hf, hp, hq⟩ := h.orderly.late_frame a
    refine h.rest ho stays hf hp hq (late_lateAct h.late a) ?_
    cases a with
    | reply i r => exact rows_answered h.late harchive
    | finish i => cases harchive; rfl
  | act a =>
    obtain ⟨ha, ht⟩ := ha
    have still (ha : a.Still) (hsame : archive = d.archive) :
        Mirrored user first { world := (d.world.act a).1, archive } := by
      obtain ⟨ho, stays, hf, hlate, hp, hq⟩ := h.orderly.still_frame ha
      exact h.rest ho stays hf hp hq (hlate ▸ h.late) (by rw [hsame])
    cases a with
    | mutate m => cases harchive; exact h.apply ha ht
    | retry failure =>
      cases harchive
      exact World.retry_induction (P := fun w => Mirrored user first { d with world := w })
        (fun c m hm hd => hd.apply (ha m hm) (ht m hm)) h
    | flush => cases harchive; exact h.launch ha
    | expire =>
      cases harchive
      simp only [World.step]
      obtain ⟨timers, -, he⟩ | he := d.world.expire_cases <;> rw [he]
      · exact (h.rest (h.orderly.timers timers) (stays_timers _ timers) rfl rfl rfl h.late rfl).launch ha
      · exact h
    | reply i r => exact h.reply i r harchive
    | finish i =>
      cases harchive
      cases hr : World.ready? d.world.flights i with
      | none => simpa only [World.step, World.act, hr] using h
      | some f =>
        obtain ⟨hf, rfl, hl⟩ := h.orderly.ready hr
        simp only [World.step, World.act, hr] at hended ⊢
        simpa only [hf, List.eraseIdx_cons_zero] using h.finish hf hl hended
    | close => exact still trivial (by cases harchive; rfl)
    | listen fault => exact still trivial (by cases harchive; rfl)
    | unlisten i => exact still trivial (by cases harchive; rfl)

/-! ## The beginning and the end of a session -/

theorem Mirrored.dated (h : d.Mirrored user first) : ∀ s ∈ d.world.coordinator.plan.semesters, s.Dated :=
  h.orderly.plan.dated

/-- A sign-in that loads the rows of the user. -/
theorem signIn_remote (hc : d.world.coordinator.cache = none) {event : IdentityEvent} (hk : event.kind ≠ .signedOut)
    (hu : event.user = some user) (ho : d.world.coordinator.owner ≠ some user)
    (hl : ({ owner := some user } : Plan).load (d.archive.document user) = .ok p) :
    ∃ c, d.step (.identity event (d.remote user)) =
        { d with world := { coordinator := c, flights := [], late := d.world.late ++ d.world.flights } } ∧
      c.owner = some user ∧ c.backend = some user ∧ c.cache = none ∧ c.queued = none ∧
      c.plan.semesters = p.semesters := by
  have connected : (d.remote user).connected = .ok () := rfl
  obtain ⟨plan, state, log, hr, -, hplan⟩ := signIn_uncached hc hk hu ho connected hl
  refine ⟨{ d.world.coordinator.ended with
      owner := some user, backend := some user, cache := none, plan, state, log },
    ?_, rfl, rfl, rfl, rfl, hplan⟩
  simp [Deployment.step, archive?, World.step, World.identify, hr, Coordinator.ended]

theorem signOut_step (hc : d.world.coordinator.cache = none) {event : IdentityEvent}
    (hk : event.kind = .signedOut) (remote : Remote) :
    ∃ c, d.step (.identity event remote) =
        { d with world := { coordinator := c, flights := [], late := d.world.late ++ d.world.flights } } ∧
      c.owner = none ∧ c.cache = none := by
  obtain ⟨cache, state, log, hr, hs, -⟩ := endSession_ok (c := d.world.coordinator) (by simp [Writable, hc])
  obtain rfl : cache = none := by simpa [hc] using hs
  have hout : (handle event fun _ => remote).run d.world.coordinator =
      (.ok (), { d.world.coordinator.ended with cache := none, state, log }) := by
    simpa [handle, hk] using hr
  refine ⟨{ d.world.coordinator.ended with cache := none, state, log }, ?_, rfl, rfl⟩
  simp [Deployment.step, archive?, World.step, World.identify, hout, Coordinator.ended]

theorem mirrored_start (hd : d.Reachable) {event : IdentityEvent} (hk : event.kind ≠ .signedOut)
    (hu : event.user = some user) (ho : d.world.coordinator.owner ≠ some user)
    (free : ∀ f ∈ d.world.flights ++ d.world.late, f.backend ≠ some user)
    (hl : ({ owner := some user } : Plan).load (d.archive.document user) = .ok p) :
    (d.step (.identity event (d.remote user))).Mirrored user d.world.coordinator.fresh := by
  have termed := hd.termed
  have rows := termed.rows user
  obtain ⟨hfollows, hstored⟩ := load_rows rows.1 (recordsOf_document _ _) hl
  obtain ⟨c, hc, howner, hbackend, hcache, hqueued, hplan⟩ := signIn_remote termed.coordinator.uncached hk hu ho hl
  have hworld : (d.world.identify event (d.remote user)).1 =
      { coordinator := c, flights := [], late := d.world.late ++ d.world.flights } := congrArg Deployment.world hc
  have began : (d.world.identify event (d.remote user)).1.coordinator.owner = some user := by rw [hworld]; exact howner
  have orderly := World.orderly_identify hd.world.counted hu ho began (by
    rw [hworld, hplan]
    intro s hs
    obtain ⟨-, r, hr, -, ht⟩ := hstored s hs
    rw [Semester.Dated, ht]
    exact rows.2 r hr)
  rw [hworld] at orderly
  rw [hc]
  exact {
    orderly
    backend := hbackend
    uncached := hcache
    storable := fun s hs => (hstored s (hplan ▸ hs)).1
    separate := by
      obtain ⟨-, -, -, -, separate⟩ := load_eq_ok hl
      rw [Separate, entries, hplan]
      exact separate
    follows := hfollows.congr hplan
    resting := fun _ s hs _ => (hstored s (hplan ▸ hs)).2.imp fun r hr => ⟨hr.1, hr.2.1⟩
    writing := by simp
    late := fun f hf => free f (List.mem_append.2 (List.mem_append.1 hf).symm) }

/-- When nothing waits and nothing is written, the rows are read back as the plan. -/
theorem Mirrored.load (h : d.Mirrored user first) (quiet : d.world.Quiet) (base : Plan) :
    ∃ q, base.load (d.archive.document user) = .ok q ∧ q.owner = base.owner ∧
      sorted q.semesters = (sorted d.world.coordinator.plan.semesters).map Semester.settled :=
  h.follows.load h.orderly.plan.valid h.orderly.plan.keyed h.separate
    (fun s hs => h.resting quiet.2 s hs (not_waits quiet.1 s)) (recordsOf_document _ _) base

/-- In a session that began by loading the rows of its user and in which no write was taken back, the rows
are read back as the plan whenever nothing waits and nothing is written. So a sign-out and another sign-in
bring the plan back. -/
theorem archive_mirrors_plan {arrival : IdentityEvent} (hd : d.Reachable) (hk : arrival.kind ≠ .signedOut)
    (hu : arrival.user = some user) (ho : d.world.coordinator.owner ≠ some user)
    (free : ∀ f ∈ d.world.flights ++ d.world.late, f.backend ≠ some user)
    (loaded : ({ owner := some user } : Plan).load (d.archive.document user) = .ok p) {e : Deployment}
    (run : Runs Allowed step (d.step (.identity arrival (d.remote user))) e) (quiet : e.world.Quiet) :
    (∀ base : Plan, ∃ q, base.load (e.archive.document user) = .ok q ∧ e.world.coordinator.plan.SameListing q) ∧
      ∀ departure again :
    IdentityEvent, departure.kind = .signedOut → again.kind ≠ .signedOut → again.user = some user →
        let left := e.step (.identity departure (e.remote user))
        let back := left.step (.identity again (left.remote user))
        back.world.coordinator.owner = some user ∧
        e.world.coordinator.plan.SameListing back.world.coordinator.plan := by
  have h : e.Mirrored user d.world.coordinator.fresh :=
    run.keeps (mirrored_start hd hk hu ho free loaded) fun _ _ h he => h.step he
  refine ⟨fun base => ?_, fun departure again hdeparture hagain huser => ?_⟩
  · obtain ⟨q, hq, -, hs⟩ := h.load quiet base
    exact ⟨q, hq, sameListing_settled h.dated h.orderly.plan.valid hs⟩
  · obtain ⟨q, hq, -, hs⟩ := h.load quiet { owner := some user }
    obtain ⟨c, hleft, howner, hcache⟩ := signOut_step h.uncached hdeparture (e.remote user)
    have hnew : (e.step (.identity departure (e.remote user))).world.coordinator.owner ≠ some user := by
      rw [hleft, howner]; nofun
    obtain ⟨c', hback, howner', -, -, -, hplan⟩ := signIn_remote (by rw [hleft]; exact hcache) hagain huser hnew
      (by rw [hleft]; exact hq)
    dsimp only
    rw [hback]
    exact ⟨howner', sameListing_settled h.dated h.orderly.plan.valid (hplan ▸ hs)⟩

/-- A session on a stored row: a flush fails, the next one writes what waited, and the rows are the plan. -/
theorem archive_mirrors_plan_retried :
    let course (id : Int) (code : String) : CourseRecord :=
      [("id", .int id), ("code", .str code), ("semester_id", .int 202400)]
    let row : Row :=
      { id := 202400, term := { season := "Fall", year := 2024 }, total := 0, gpa := 0.0, maxCredits := 18,
        courses := [course 1 "CS 101", course 2 "CS 102"], isActive := false }
    let d : Deployment := { world := { coordinator := .new 0.4 none }, archive := { users := [("user-a", [row])] } }
    let arrival : IdentityEvent := { user := some "user-a", kind := .signedIn }
    let added : Entry :=
      { id := .str "c-3", code := .str "CS 103", title := .str "Logic", credits := 4, status := .planned,
        semester := .int 202400, grade := none }
    let events : List Event := [.act (.mutate (.setStatus (.int 202400) (.int 1) (.str "completed") (.str "A"))),
      .act (.mutate (.remove (.int 202400) (.int 2))), .act .flush, .act (.mutate (.add added)),
      .act (.reply 0 .accepted), .act (.reply 0 (.failed "timeout")), .act (.finish 0), .act .flush,
      .act (.reply 0 .accepted), .act (.reply 0 .accepted), .act (.finish 0)]
    let e := events.foldl step (d.step (.identity arrival (d.remote "user-a")))
    d.Reachable ∧ Runs Allowed step (d.step (.identity arrival (d.remote "user-a"))) e ∧ e.world.Quiet ∧
      e.world.coordinator.plan.entries.map (·.id) = [.int 1, .str "c-3"] ∧
      ∃ q, ({ owner := none } : Plan).load (e.archive.document "user-a") = .ok q ∧
        e.world.coordinator.plan.SameListing q := by
  intro course row d arrival added events e
  have hd : d.Reachable := .new 0.4 (termed_of_users (by decide +kernel))
  have loaded : (({ owner := some "user-a" } : Plan).load (d.archive.document "user-a")).toOption.isSome := by
    decide +kernel
  have run : Runs Allowed step (d.step (.identity arrival (d.remote "user-a"))) e :=
    Runs.start.all events (by decide +kernel)
  have quiet : e.world.Quiet :=
    ⟨Option.isNone_iff_eq_none.1 (by decide +kernel), List.isEmpty_iff.1 (by decide +kernel)⟩
  have entries : e.world.coordinator.plan.entries.map (·.id) = [.int 1, .str "c-3"] := by decide +kernel
  clear_value e
  cases hp : ({ owner := some "user-a" } : Plan).load (d.archive.document "user-a") with
  | error => rw [hp] at loaded; cases loaded
  | ok p => exact ⟨hd, run, quiet, entries, (archive_mirrors_plan hd (by decide) rfl nofun nofun hp run quiet).1 _⟩

end Deployment
end DegreePlan.Sync
