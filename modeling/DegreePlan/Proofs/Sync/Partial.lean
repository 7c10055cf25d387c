import DegreePlan.Proofs.Listing
import DegreePlan.Proofs.Sync.Mirror

/-!
# Writes that stop midway

A write deletes courses and then saves semesters one after the other. When one of these calls fails, the
calls before it have taken effect, and a rollback takes the plan back but not the rows. So after a rollback
the rows are in step with the plan as long as no call that took effect has changed what the plan has.
-/

namespace DegreePlan.Sync

open Plan Archive

/-! ## Calls that keep a plan -/

/-- The call deletes no course of the plan, or saves what is read as a semester of the plan. -/
def Call.Keeps (p : Plan) : Call → Prop
  | .delete ids => ∀ e ∈ p.entries, e.id.isIn ids = false
  | .save payload => ∃ r t, Row.ofJson payload = .ok r ∧ r.Reads t ∧ ∃ s ∈ p.semesters, s.same t = true

instance (p : Plan) : (call : Call) → Decidable (call.Keeps p)
  | .delete ids => inferInstanceAs (Decidable (∀ e ∈ p.entries, e.id.isIn ids = false))
  | .save payload =>
    decidable_of_iff ((match Row.ofJson payload with
      | .ok r => match Semester.ofJson r.toJson with
        | .ok t => p.semesters.any fun s => s.same t
        | .error _ => false
      | .error _ => false) = true) <| by
      simp only [Call.Keeps, Row.Reads]
      cases Row.ofJson payload with
      | error => simp
      | ok r => cases hr : Semester.ofJson r.toJson <;> simp [hr]

/-- The rows after several requests that are carried out one after the other. -/
inductive PerformedAll (rows : List Row) : List Call → List Row → Prop where
  | none : PerformedAll rows [] rows
  | more {calls : List Call} {before after : List Row} {call : Call} (h : PerformedAll rows calls before)
      (hp : Performed before call after) : PerformedAll rows (calls ++ [call]) after

variable {rows rows' : List Row} {p q : Plan} {call : Call}

theorem nodup_performed (hn : (rows.map (·.id)).Nodup) (hp : Performed rows call rows') :
    (rows'.map (·.id)).Nodup := by
  cases hp with
  | deleted hd => exact ids_dropFrom hd ▸ hn
  | saved => exact nodup_putRow hn

/-- A call that keeps the plan keeps the rows in step. -/
theorem inStep_performed (h : InStep rows p) (hn : (rows.map (·.id)).Nodup) (hp : Performed rows call rows')
    (hk : call.Keeps p) : InStep rows' p := by
  cases hp with
  | deleted hd => exact h.deleted hd hk
  | saved hr =>
    obtain ⟨r, t, hr', ht, s, hs, same⟩ := hk
    cases hr.symm.trans hr'
    exact h.stored hn ht hs (Semester.same_iff.1 same)

theorem inStep_performedAll {calls : List Call} (h : InStep rows p) (hn : (rows.map (·.id)).Nodup)
    (hp : PerformedAll rows calls rows') (hk : ∀ call ∈ calls, call.Keeps p) :
    (rows'.map (·.id)).Nodup ∧ InStep rows' p := by
  induction hp with
  | none => exact ⟨hn, h⟩
  | more _ hp ih =>
    obtain ⟨hcalls, hcall⟩ := List.forall_mem_append.1 hk
    obtain ⟨hbefore, before⟩ := ih hcalls
    exact ⟨nodup_performed hbefore hp, inStep_performed before hbefore hp (hcall _ (List.mem_singleton_self _))⟩

/-! ## The calls of a write -/

/-- What is known of a write and of its calls that took effect: what they saved is in the rows, and what they
deleted is not. -/
structure Sending (user : String) (took : List Call) (rows : List Row) (f : Flight) : Prop where
  backend : f.backend = some user
  saves : ∀ payload, .save payload ∈ took ++ f.left → ∃ s ∈ f.plan.semesters, s.toJson = .ok payload
  deletes : ∀ ids, .delete ids ∈ took ++ f.left → ∀ e ∈ f.plan.entries, e.id.isIn ids = false
  /-- Nothing goes before a delete. -/
  ordered : (took ++ f.left).Pairwise fun _ later => ∀ ids, later ≠ .delete ids
  stored : ∀ payload, .save payload ∈ took → ∃ r ∈ rows, Row.ofJson payload = .ok r
  gone : ∀ ids, .delete ids ∈ took → ∀ r ∈ rows, ∀ c ∈ r.courses, (CourseRecord.id c).isIn ids = false

namespace Sending

variable {user : String} {took rest : List Call} {f : Flight}

/-- The next call takes effect. -/
theorem performed (h : Sending user took rows f) (hids : (f.plan.semesters.map (·.id)).Nodup)
    (hl : f.left = call :: rest) (hp : Performed rows call rows') :
    Sending user (took ++ [call]) rows' { f with left := rest } := by
  have all : took ++ [call] ++ rest = took ++ f.left := by simp [hl]
  have now : call ∈ took ++ f.left := by simp [hl]
  suffices (∀ payload, .save payload ∈ took ++ [call] → ∃ r ∈ rows', Row.ofJson payload = .ok r) ∧
      ∀ ids, .delete ids ∈ took ++ [call] → ∀ r ∈ rows', ∀ c ∈ r.courses,
        (CourseRecord.id c).isIn ids = false from
    { backend := h.backend, saves := all ▸ h.saves, deletes := all ▸ h.deletes, ordered := all ▸ h.ordered
      stored := this.1, gone := this.2 }
  cases hp with
  | @deleted ids _ n hd =>
    -- a delete is the first call
    have first : took = [] := by
      refine List.eq_nil_iff_forall_not_mem.2 fun earlier he => ?_
      exact (List.pairwise_append.1 h.ordered).2.2 earlier he (.delete ids) (by simp [hl]) ids rfl
    subst first
    refine ⟨fun payload hp => ?_, fun ids' hd' r' hr' c hc => ?_⟩
    · cases List.mem_singleton.1 hp
    · cases List.mem_singleton.1 hd'
      obtain ⟨r, -, n, drop⟩ := exists_of_forall₂ (R := fun (r' r : Row) => ∃ n, r.dropCourses ids =
        (r', .ok n))
        (dropFrom_eq_ok hd).flip hr'
      obtain ⟨total, gpa, rfl⟩ := Row.dropCourses_eq_ok drop
      simpa using (List.mem_filter.1 hc).2
  | @saved payload r hr =>
    obtain ⟨s, hs, hj⟩ := h.saves payload now
    obtain ⟨hid, -, hcourses, -⟩ := Row.ofJson_toJson hj hr
    refine ⟨fun other ho => ?_, fun ids hd x hx c hc => ?_⟩
    · rcases List.mem_append.1 ho with ho | ho
      · obtain ⟨x, hx, hxr⟩ := h.stored other ho
        by_cases same : x.id = r.id
        · -- both are records of one semester of the plan
          obtain ⟨s', hs', hj'⟩ := h.saves other (List.mem_append_left _ ho)
          have ids : s'.id = s.id := (Row.ofJson_toJson hj' hxr).1.symm.trans (same.trans hid)
          obtain rfl : s' = s := List.inj_on_of_nodup_map hids hs' hs ids
          cases hj.symm.trans hj'
          exact ⟨r, mem_putRow_self r rows, hr⟩
        · exact ⟨x, mem_putRow_of_ne hx same, hxr⟩
      · cases List.mem_singleton.1 ho
        exact ⟨r, mem_putRow_self r rows, hr⟩
    · have hd : .delete ids ∈ took := (List.mem_append.1 hd).resolve_right fun hd => by cases List.mem_singleton.1 hd
      rcases mem_putRow hx with rfl | hx
      · rw [hcourses] at hc
        obtain ⟨e, he, rfl⟩ := List.mem_map.1 hc
        exact h.deletes ids (List.mem_append_left _ hd) e (mem_entries.2 ⟨s, hs, he⟩)
      · exact h.gone ids hd x hx c hc

/-- A write that has failed sends no more. -/
theorem failed (h : Sending user took rows f) (cause : String) :
    Sending user took rows { f with left := [], cause := some cause } :=
  have fewer : ∀ call ∈ took ++ [], call ∈ took ++ f.left :=
    fun call hc => List.mem_append_left _ (by simpa using hc)
  { h with
    saves := fun payload hp => h.saves payload (fewer _ hp)
    deletes := fun ids hd => h.deletes ids (fewer _ hd)
    ordered := h.ordered.sublist ((List.nil_sublist _).append_left took) }

/-- If the rows are in step with a plan, the calls that took effect have kept it. -/
theorem keeps (h : Sending user took rows f) (hs : InStep rows p) : ∀ call ∈ took, call.Keeps p := by
  intro call hc
  cases call with
  | delete ids =>
    intro e he
    obtain ⟨s, hmem, he⟩ := mem_entries.1 he
    obtain ⟨r, hr, t, ht, same⟩ := hs.row hmem
    -- some course of the row has the id of this one
    obtain ⟨e', he', sameId⟩ := Semester.course_of_canonical same he
    obtain ⟨c, hcmem, hcid⟩ :=
      List.mem_map.1 (ht.ids ▸ List.mem_map_of_mem he' : e'.id ∈ r.courses.map CourseRecord.id)
    rw [← Json.isIn_congr _ sameId, ← hcid]
    exact h.gone ids hc r hr c hcmem
  | save payload =>
    obtain ⟨r, hr, hrow⟩ := h.stored payload hc
    obtain ⟨t, ht, s, hmem, same⟩ := hs.semester hr
    exact ⟨r, t, hrow, ht, s, hmem, Semester.same_iff.2 same⟩

end Sending
/-! ## Where a batch was opened -/

/-- The plan and the archive before the first mutation of a batch, with the calls that took effect since. -/
structure Mark where
  plan : Plan
  archive : Archive
  calls : List Call := []

namespace Mark

/-- A batch that is opened now. -/
def now (d : Deployment) : Mark := { plan := d.world.coordinator.plan, archive := d.archive }

def after (m : Mark) (calls : List Call) : Mark := { m with calls := m.calls ++ calls }

@[simp] theorem after_nil (m : Mark) : m.after [] = m := by simp [after]

/-- The batch goes back to the plan of the mark, and the calls led from the rows of the mark to these rows. -/
structure Stands (user : String) (m : Mark) (b : Batch) (rows : List Row) : Prop where
  plan : Fit user m.plan
  taken : b.snapshot.semesters = sorted m.plan.semesters
  distinct : ((m.archive.rows user).map (·.id)).Nodup
  performed : PerformedAll (m.archive.rows user) m.calls rows

theorem Stands.perform {user : String} {m : Mark} {b : Batch} (h : m.Stands user b rows)
    (hp : Performed rows call rows') : (m.after [call]).Stands user b rows' :=
  { h with performed := h.performed.more hp }

end Mark

/-- A session with its archive, where its batches were opened, and the calls of the write that took effect. -/
structure Attempt extends Deployment where
  /-- Where the batch that waits was opened. -/
  opened : Mark
  /-- Where the batch that is written was opened. -/
  begun : Mark
  took : List Call := []

namespace Attempt

def start (d : Deployment) : Attempt := { toDeployment := d, opened := .now d, begun := .now d }

/-- Where the batch was opened that waits after the next mutation. -/
def opening (t : Attempt) : Mark := if t.world.coordinator.queued.isNone then .now t.toDeployment else t.opened

/-- The call that takes effect. -/
def effect (t : Attempt) : Event → List Call
  | .act (.reply i .accepted) => ((t.world.flights[i]?.bind Flight.call?).map (·.2)).toList
  | _ => []

/-- A write ends and waits again. -/
def putOff (t : Attempt) : Event → Bool
  | .act (.finish i) => (t.world.act (.finish i)).2.ended == some .pending
  | _ => false

/-- The session goes on, perhaps with a write that begins. -/
def next (t : Attempt) (d : Deployment) : Attempt :=
  -- writes do not overlap, so a write begins just when there is one and was none
  let begins := t.world.flights.isEmpty && !d.world.flights.isEmpty
  { toDeployment := d
    opened := t.opening
    begun := if begins then t.opening else t.begun
    took := if begins then [] else t.took }

/-- Lets something happen. -/
def step (t : Attempt) (e : Event) : Attempt :=
  let n := t.next (t.toDeployment.step e)
  { n with
    -- a batch that waits again goes back to where it was opened, whatever was opened since
    opened := if t.putOff e then t.begun else n.opened.after (t.effect e)
    begun := n.begun.after (t.effect e)
    took := n.took ++ t.effect e }

/-- What may happen in a session whose backend carries out what it accepts. -/
def Allowed (t : Attempt) (e : Event) : Prop :=
  (t.archive? e).isSome ∧ match e with
    | .act a => a.Allowed t.world
    | .late _ => True
    | .identity .. => False

instance (t : Attempt) : (e : Event) → Decidable (t.Allowed e)
  | .act a => inferInstanceAs (Decidable ((t.archive? (.act a)).isSome ∧ a.Allowed t.world))
  | .late a => inferInstanceAs (Decidable ((t.archive? (.late a)).isSome ∧ True))
  | .identity event remote => inferInstanceAs (Decidable ((t.archive? (.identity event remote)).isSome ∧ False))

/-! ## What every step keeps -/

/-- What holds throughout a session. -/
structure Kept (user : String) (first : Nat) (t : Attempt) : Prop where
  orderly : t.world.Orderly user first
  backend : t.world.coordinator.backend = some user
  late : ∀ f ∈ t.world.late, f.backend ≠ some user
  distinct : ((t.archive.rows user).map (·.id)).Nodup
  waiting : ∀ b ∈ t.world.coordinator.queued, t.opened.Stands user b (t.archive.rows user)
  writing : ∀ f ∈ t.world.flights, t.begun.Stands user f.batch (t.archive.rows user) ∧
    Sending user t.took (t.archive.rows user) f ∧ t.took <:+ t.begun.calls

variable {user : String} {first : Nat} {t : Attempt} {w : World} {archive : Archive} {f : Flight}

open Coordinator

theorem Kept.opening (h : t.Kept user first) :
    ∀ b ∈ t.world.coordinator.queued, t.opening.Stands user b (t.archive.rows user) := by
  intro b hb
  have some_waits : t.world.coordinator.queued.isNone = false := by rw [hb]; rfl
  rw [Attempt.opening, some_waits]
  exact h.waiting b hb

theorem next_same {d : Deployment} (hf : d.world.flights = t.world.flights) :
    t.next d = { t with toDeployment := d, opened := t.opening } := by
  simp [next, hf]

theorem next_begins {d : Deployment} (hf : t.world.flights = []) (hd : d.world.flights ≠ []) :
    t.next d = { toDeployment := d, opened := t.opening, begun := t.opening, took := [] } := by
  simp [next, hf, hd]

theorem step_next {e : Event} (he : t.effect e = []) (hp : t.putOff e = false) :
    t.step e = t.next (t.toDeployment.step e) := by
  simp [step, he, hp]

/-- The writes and the rows stayed as they were, and what waits now stands where it was opened. -/
theorem Kept.rest (h : t.Kept user first) (orderly : w.Orderly user first)
    (stays : Stays t.world.coordinator w.coordinator) (hf : w.flights = t.world.flights)
    (hl : ∀ f ∈ w.late, f.backend ≠ some user) (hr : archive.rows user = t.archive.rows user)
    (waiting : ∀ b ∈ w.coordinator.queued, t.opening.Stands user b (t.archive.rows user)) :
    (t.next { world := w, archive }).Kept user first := by
  rw [next_same hf]
  exact {
    orderly
    backend := stays.backend.trans h.backend
    late := hl
    distinct := by rw [hr]; exact h.distinct
    waiting := by rw [hr]; exact waiting
    writing := by rw [hf, hr]; exact h.writing }

/-- Where mutations lead: the first one that does something opens a batch. -/
structure Mutated (user : String) (first : Nat) (t : Attempt) (w : World) : Prop where
  orderly : w.Orderly user first
  stays : Stays t.world.coordinator w.coordinator
  flights : w.flights = t.world.flights
  late : w.late = t.world.late
  waiting : ∀ b ∈ w.coordinator.queued, t.opening.Stands user b (t.archive.rows user)
  unopened : w.coordinator.queued = none → t.opening = .now t.toDeployment ∧
    w.coordinator.plan = t.world.coordinator.plan

theorem Kept.mutated (h : t.Kept user first) : Mutated user first t t.world where
  orderly := h.orderly
  stays := .refl _
  flights := rfl
  late := rfl
  waiting := h.opening
  unopened hn := by
    constructor
    · rw [Attempt.opening, hn]
      rfl
    · rfl

theorem Mutated.apply (hk : t.Kept user first) (h : Mutated user first t w) {m : Mutation} (hm : m.Plain) :
    Mutated user first t { w with coordinator := ((Coordinator.apply m).run w.coordinator).2 } := by
  have orderly := h.orderly.apply hm
  obtain ⟨stays, -, ⟨hp, hq⟩ | ⟨snapshot, e, b, hs, -, -, hq, hb⟩⟩ := w.coordinator.apply_made m
  · exact ⟨orderly, h.stays.trans stays, h.flights, h.late, by rw [hq]; exact h.waiting,
      fun hn => hp ▸ h.unopened (hq ▸ hn)⟩
  refine ⟨orderly, h.stays.trans stays, h.flights, h.late, fun b' hb' => ?_, fun hn => by cases hq.symm.trans hn⟩
  cases hq.symm.trans hb'
  rcases hb with hb | ⟨hn, rfl⟩
  · have stands := h.waiting b hb
    exact { stands with taken := stands.taken }
  · -- the batch is opened now
    obtain ⟨hopening, hplan⟩ := h.unopened hn
    rw [h.orderly.plan.snapshot] at hs
    rw [hopening]
    exact {
      plan := hk.orderly.plan
      taken := by rw [← Except.ok.inj hs]; exact congrArg (fun p : Plan => sorted p.semesters) hplan
      distinct := hk.distinct
      performed := .none }

theorem Kept.after_mutations (h : t.Kept user first) (hm : Mutated user first t w) :
    (t.next { t.toDeployment with world := w }).Kept user first :=
  h.rest hm.orderly hm.stays hm.flights (by rw [hm.late]; exact h.late) rfl hm.waiting

/-- A write begins where its batch was opened; no call of it took effect yet. -/
theorem Kept.launch (h : t.Kept user first)
    (hl : t.world.coordinator.queued.isSome → t.world.flights = [] ∧ Averaged t.world.coordinator.plan) :
    (t.next { t.toDeployment with world := t.world.launch.1 }).Kept user first := by
  have orderly := h.orderly.launch hl
  rcases h.orderly.launch_cases hl with ⟨hq, hr⟩ | ⟨b, ps, gone, hq, hf, ha, hps, hgone, f, hstart, hr⟩
  · rw [hr] at orderly ⊢
    refine h.rest orderly (stays_stopTimer _) rfl h.late rfl fun b hb => ?_
    cases ((stopTimer_queued _).trans hq).symm.trans hb
  rw [hr] at orderly ⊢
  have fit := t.world.coordinator.fit_closed (h.orderly.queued b hq).1
  have left : f.left = Write.calls { backend := t.world.coordinator.backend, deleted := gone, payloads := ps } := by
    rw [hstart, Flight.start_left _ _ h.backend]
  have plan : f.plan = t.world.coordinator.plan := by rw [hstart, Flight.start_plan]
  have batch : f.batch = t.world.coordinator.closed b := by rw [hstart, Flight.start_batch]
  rw [next_begins hf (List.cons_ne_nil _ _)]
  refine ⟨orderly, (stopTimer_backend _).trans h.backend, h.late, h.distinct, nofun, fun g hg => ?_⟩
  rw [List.mem_singleton.1 hg]
  refine ⟨?_, ?_, List.nil_suffix⟩
  · have stands := h.opening b hq
    exact { stands with taken := by rw [batch]; exact stands.taken }
  refine {
    backend := by rw [hstart, Flight.start_backend]; exact h.backend
    saves := fun payload hp => ?_
    deletes := fun ids hd e he => ?_
    ordered := ?_
    stored := nofun
    gone := nofun }
  · rw [List.nil_append, left, save_mem_calls, mem_payloads_iff h.orderly.plan fit ha hps] at hp
    obtain ⟨s, hs, -, hj⟩ := hp
    exact ⟨s, plan ▸ hs, hj⟩
  · rw [List.nil_append, left] at hd
    obtain rfl := delete_mem_calls hd
    rw [plan] at he
    exact isIn_goneIds h.orderly.plan fit hgone e he
  · -- the delete goes first, and all other calls save
    rw [List.nil_append, left, Write.calls, List.pairwise_append]
    refine ⟨?_, ?_, ?_⟩
    · split
      · exact .nil
      · exact List.pairwise_singleton _ _
    · rw [List.pairwise_map]
      exact List.pairwise_of_forall fun _ _ ids same => by cases same
    · intro earlier _ later hlater
      obtain ⟨payload, -, rfl⟩ := List.mem_map.1 hlater
      exact fun ids same => by cases same

/-- The write of the session came on, and the rows with it if a call took effect. -/
theorem Kept.came (h : t.Kept user first) (hf : t.world.flights = [f]) {g : Flight} {calls : List Call}
    (orderly : ({ t.world with flights := [g] } : World).Orderly user first) (hb : g.batch = f.batch)
    (distinct : ((archive.rows user).map (·.id)).Nodup)
    (stands : ∀ (m : Mark) (b : Batch), m.Stands user b (t.archive.rows user) →
      (m.after calls).Stands user b (archive.rows user))
    (sending : Sending user (t.took ++ calls) (archive.rows user) g) :
    Kept user first { t with
      toDeployment := { world := { t.world with flights := [g] }, archive }
      opened := t.opening.after calls, begun := t.begun.after calls, took := t.took ++ calls } where
  orderly := orderly
  backend := h.backend
  late := h.late
  distinct := distinct
  waiting b hb := stands _ b (h.opening b hb)
  writing x hx := by
    obtain ⟨begun, -, earlier, he⟩ := h.writing f (by simp [hf])
    rw [List.mem_singleton.1 hx, hb]
    exact ⟨stands _ _ begun, sending, earlier, by simp [Mark.after, ← he]⟩

theorem step_reply (hf : t.world.flights = [f]) {r : Reply} (ha : t.archive? (.act (.reply 0 r)) = some archive) :
    t.step (.act (.reply 0 r)) = { t with
      toDeployment := { world := { t.world with flights := [f.answer r] }, archive }
      opened := t.opening.after (t.effect (.act (.reply 0 r))), begun := t.begun.after (t.effect (.act (.reply 0 r)))
      took := t.took ++ t.effect (.act (.reply 0 r)) } := by
  simp [step, Deployment.step, ha, World.step, World.act, World.answered, next, hf, putOff]

/-- An answer to the write of the session. -/
theorem Kept.reply (h : t.Kept user first) (i : Nat) (r : Reply)
    (can : (t.archive? (.act (.reply i r))).isSome) : (t.step (.act (.reply i r))).Kept user first := by
  obtain ⟨archive, ha⟩ := Option.isSome_iff_exists.1 can
  cases hi : t.world.flights[i]? with
  | none =>
    have same : archive = t.archive := by cases r <;> simpa [Deployment.archive?, Deployment.answered, hi] using ha.symm
    have stays : t.toDeployment.step (.act (.reply i r)) = t.toDeployment := by
      simp [Deployment.step, ha, same, World.step, World.act, World.answered, hi]
    have nothing : t.effect (.act (.reply i r)) = [] := by cases r <;> simp [effect, hi]
    rw [step_next nothing rfl, stays]
    exact h.rest h.orderly (.refl _) rfl h.late rfl h.opening
  | some f =>
    obtain ⟨hf, rfl⟩ := h.orderly.only hi
    obtain ⟨-, sending, -⟩ := h.writing f (by simp [hf])
    have orderly : ({ t.world with flights := [f.answer r] } : World).Orderly user first := by
      simpa [World.answered, hf] using h.orderly.reply 0 r
    -- an answer after which no call has taken effect
    have idle (nothing : t.effect (.act (.reply 0 r)) = []) (same : archive = t.archive)
        (goes : Sending user t.took (t.archive.rows user) (f.answer r)) :
        (t.step (.act (.reply 0 r))).Kept user first := by
      rw [step_reply hf ha, nothing, same]
      refine h.came hf orderly (f.answer_batch r) h.distinct (fun m b hm => by rw [Mark.after_nil]; exact hm) ?_
      rw [List.append_nil]
      exact goes
    cases hl : f.left with
    | nil =>
      have unanswered : f.answer r = f := by simp [Flight.answer, hl]
      refine idle ?_ ?_ (by rw [unanswered]; exact sending)
      · cases r <;> simp [effect, hi, Flight.call?, hl]
      · cases r <;> simpa [Deployment.archive?, Deployment.answered, hi, Flight.call?, hl] using ha.symm
    | cons call rest =>
      rcases Flight.answer_cons hl r with ⟨rfl, answered⟩ | ⟨refused, cause, answered⟩
      · have performed : Performed (t.archive.rows user) call (archive.rows user) := by
          have hp : call.perform t.archive user = some archive := by
            simpa [Deployment.archive?, Deployment.answered, hi, Flight.call?, sending.backend, hl] using ha
          exact (Call.perform_eq_some hp).1
        have took : t.effect (.act (.reply 0 .accepted)) = [call] := by
          simp [effect, hi, Flight.call?, sending.backend, hl]
        have ids := (h.orderly.flights f (by simp [hf])).plan.valid.ids
        rw [step_reply hf ha, took]
        refine h.came hf orderly (f.answer_batch _) (nodup_performed h.distinct performed)
          (fun m b hm => hm.perform performed) ?_
        rw [answered]
        exact sending.performed ids hl performed
      · refine idle ?_ ?_ (by rw [answered]; exact sending.failed cause)
        · cases r with
          | accepted => exact absurd rfl refused
          | rejected | failed => rfl
        · cases r with
          | accepted => exact absurd rfl refused
          | rejected | failed => simpa [Deployment.archive?, Deployment.answered] using ha.symm

theorem deployed_finish (hr : World.ready? t.world.flights 0 = some f) (hf : t.world.flights = [f]) :
    t.toDeployment.step (.act (.finish 0)) = { t.toDeployment with world := { t.world with
      coordinator := ((finishFlush f.batch f.cause).run t.world.coordinator).2, flights := [] } } := by
  simp only [Deployment.step, World.step, World.act, hr]
  simp [Deployment.archive?, hf]

/-- The end of the write of the session. A batch that waits again stands where it was opened. -/
theorem Kept.finish (h : t.Kept user first) (i : Nat) : (t.step (.act (.finish i))).Kept user first := by
  cases hr : World.ready? t.world.flights i with
  | none =>
    have stays : t.toDeployment.step (.act (.finish i)) = t.toDeployment := by
      simp [Deployment.step, Deployment.archive?, World.step, World.act, hr]
    have waits : t.putOff (.act (.finish i)) = false := by simp [putOff, World.act, hr]
    rw [step_next rfl waits, stays]
    exact h.rest h.orderly (.refl _) rfl h.late rfl h.opening
  | some f =>
    obtain ⟨hf, rfl, -⟩ := h.orderly.ready hr
    have orderly := h.orderly.finish hf
    obtain ⟨begun, -⟩ := h.writing f (by simp [hf])
    obtain ⟨stays, hcases⟩ := h.orderly.finish_cases hf
    have deployed := deployed_finish hr hf
    have ended : t.putOff (.act (.finish 0)) =
        ((Report.ofFlushed ((finishFlush f.batch f.cause).run t.world.coordinator).1).ended == some .pending) := by
      simp [putOff, World.act, hr]
    have moved : t.step (.act (.finish 0)) = { t with
        toDeployment := t.toDeployment.step (.act (.finish 0))
        opened := if t.putOff (.act (.finish 0)) then t.begun else t.opening } := by
      simp [step, next, deployed, effect]
    rw [moved, deployed, ended]
    generalize (finishFlush f.batch f.cause).run t.world.coordinator = r at orderly stays hcases ⊢
    refine ⟨orderly, stays.backend.trans h.backend, h.late, h.distinct, fun b hb => ?_,
      fun g hg => (List.not_mem_nil hg).elim⟩
    -- what waits afterwards is what waited before, unless the write was put off
    have kept (hq : r.2.queued = t.world.coordinator.queued)
        (hn : (Report.ofFlushed r.1).ended ≠ some .pending) :
        Mark.Stands user (if (Report.ofFlushed r.1).ended == some .pending then t.begun else t.opening) b
          (t.archive.rows user) := by
      rw [if_neg (by simpa using hn)]
      exact h.opening b (hq ▸ hb)
    rcases hcases with ⟨-, hr, -, hq⟩ | ⟨-, -, hr, -, b₀, hq, -⟩ | ⟨-, -, -, hq, hx, -⟩
    · exact kept hq fun hp => by rw [hr] at hp; cases hp
    · rw [hr]
      cases hq.symm.trans hb
      exact { begun with taken := begun.taken }
    · refine kept hq fun hp => ?_
      cases hr : r.1 with
      | error fault => rw [hr] at hp; cases hp
      | ok x =>
        rw [hr, Report.ofFlushed, hx x hr] at hp
        cases hp

theorem Kept.late_act (h : t.Kept user first) (a : LateAct) (can : (t.archive? (.late a)).isSome) :
    (t.step (.late a)).Kept user first := by
  obtain ⟨archive, ha⟩ := Option.isSome_iff_exists.1 can
  obtain ⟨orderly, stays, hf, -, hq⟩ := h.orderly.late_frame a
  have rows : archive.rows user = t.archive.rows user := by
    cases a with
    | reply i r => exact Deployment.rows_answered h.late ha
    | finish i =>
      cases ha
      rfl
  have deployed : t.toDeployment.step (.late a) = { world := (t.world.lateAct a).1, archive } := by
    simp [Deployment.step, ha, World.step]
  rw [step_next rfl rfl, deployed]
  exact h.rest orderly stays hf (Deployment.late_lateAct h.late a) rows (by rw [hq]; exact h.opening)

theorem Kept.still (h : t.Kept user first) {a : Act} (ha : a.Still) : (t.step (.act a)).Kept user first := by
  obtain ⟨orderly, stays, hf, hl, -, hq⟩ := h.orderly.still_frame ha
  have quiet : t.step (.act a) = t.next { t.toDeployment with world := (t.world.act a).1 } := by
    cases a with
    | close | listen | unlisten => exact step_next rfl rfl
    | _ => exact ha.elim
  rw [quiet]
  exact h.rest orderly stays hf (by rw [hl]; exact h.late) rfl (by rw [hq]; exact h.opening)

/-- The timers that wait change nothing of this. -/
theorem Kept.timers (h : t.Kept user first) (timers : List Timer) :
    let d : Deployment :=
      { t.toDeployment with world := { t.world with coordinator := { t.world.coordinator with timers } } }
    (t.next d).Kept user first ∧ (t.next d).next = t.next := by
  intro d
  have goes : t.next d = { t with toDeployment := d, opened := t.opening } := next_same rfl
  have opening : (t.next d).opening = t.opening := by
    rw [goes]
    simp only [Attempt.opening, Mark.now, d]
    split <;> rfl
  constructor
  · exact h.rest (h.orderly.timers timers) (Coordinator.stays_timers _ timers) rfl h.late rfl h.opening
  · funext e
    rw [next, opening, goes]
    rfl

/-- Every step of a session keeps what holds throughout it. -/
theorem Kept.step (h : t.Kept user first) {e : Event} (ha : t.Allowed e) : (t.step e).Kept user first := by
  obtain ⟨can, ha⟩ := ha
  cases e with
  | identity => exact ha.elim
  | late a => exact h.late_act a can
  | act a =>
    cases a with
    | mutate m =>
      rw [step_next rfl rfl]
      exact h.after_mutations (h.mutated.apply h ha)
    | retry failure =>
      rw [step_next rfl rfl]
      exact h.after_mutations
        (World.retry_induction (P := Mutated user first t) (fun c m hm hc => hc.apply h (ha m hm)) h.mutated)
    | flush =>
      rw [step_next rfl rfl]
      exact h.launch ha
    | expire =>
      have deployed : t.step (.act .expire) = t.next { t.toDeployment with world := (t.world.act .expire).1 } :=
        step_next rfl rfl
      rw [deployed]
      obtain ⟨timers, -, expired⟩ | expired := t.world.expire_cases <;> rw [expired]
      · obtain ⟨kept, same⟩ := h.timers timers
        rw [← same]
        exact kept.launch ha
      · exact h.rest h.orderly (.refl _) rfl h.late rfl h.opening
    | reply i r => exact h.reply i r can
    | finish i => exact h.finish i
    | close => exact h.still trivial
    | listen fault => exact h.still trivial
    | unlisten i => exact h.still trivial

/-! ## After a rollback -/

theorem kept_start {d : Deployment} (h : d.world.Orderly user first) (quiet : d.world.Quiet)
    (backend : d.world.coordinator.backend = some user) (late : ∀ f ∈ d.world.late, f.backend ≠ some user)
    (distinct : ((d.archive.rows user).map (·.id)).Nodup) : (start d).Kept user first where
  orderly := h
  backend := backend
  late := late
  distinct := distinct
  waiting b hb := by cases quiet.1.symm.trans hb
  writing f hf := by
    have listed : f ∈ d.world.flights := hf
    rw [quiet.2] at listed
    cases listed

/-- Take any run of a session whose backend carries out what it accepts, in which no write begins before the
last one ended, and in which only the session writes to the rows of its user. Let a write be taken back whose
batch was opened when the rows were in step with the plan. Then the plan is the one from before the batch. If
every call since then that took effect has kept this plan, the rows are in step with it; and if they are, every
call of this write that took effect has kept it. -/
theorem rolledBack_inStep {w : World} (hw : World.Reachable w) {event : IdentityEvent} {remote : Remote}
    (hu : event.user = some user) (ho : w.coordinator.owner ≠ some user)
    (began : (w.identify event remote).1.coordinator.owner = some user)
    (connected : (w.identify event remote).1.coordinator.backend = some user)
    {xs : List Semester} (listed : (w.identify event remote).1.coordinator.plan.ordered = .ok xs)
    (free : ∀ f ∈ w.flights ++ w.late, f.backend ≠ some user) (distinct : ((archive.rows user).map (·.id)).Nodup)
    (run : Runs Allowed step (start { world := (w.identify event remote).1, archive }) t) {i : Nat}
    (ended : (t.world.act (.finish i)).2.ended = some .rolledBack)
    (inStep : t.begun.archive.Mirrors user t.begun.plan) :
    let after := t.step (.act (.finish i))
    after.world.coordinator.plan.ordered = t.begun.plan.ordered ∧ t.took <:+ t.begun.calls ∧
      ((∀ call ∈ t.begun.calls, call.Keeps after.world.coordinator.plan) →
        after.archive.Mirrors user after.world.coordinator.plan) ∧
      (after.archive.Mirrors user after.world.coordinator.plan →
        ∀ call ∈ t.took, call.Keeps after.world.coordinator.plan) := by
  intro after
  obtain ⟨hd, -⟩ := ordered_eq_ok.1 listed
  have orderly := World.orderly_identify hw.counted hu ho began hd
  -- the session begins with nothing waiting, and every step keeps the rest
  have begins : (start { world := (w.identify event remote).1, archive }).Kept user w.coordinator.fresh := by
    obtain ⟨backend, plan, cache, log, state, -, he⟩ := w.identify_frame hu ho began
    rw [he] at orderly connected ⊢
    refine kept_start orderly ⟨rfl, rfl⟩ connected (fun f hf => free f ?_) distinct
    exact List.mem_append.2 (List.mem_append.1 hf).symm
  have h : t.Kept user w.coordinator.fresh := run.keeps begins fun _ _ h he => h.step he
  have later : (t.step (.act (.finish i))).Kept user w.coordinator.fresh := h.finish i
  cases hr : World.ready? t.world.flights i with
  | none => simp [World.act, hr] at ended
  | some f =>
    obtain ⟨hf, rfl, -⟩ := h.orderly.ready hr
    obtain ⟨stands, sending, suffix⟩ := h.writing f (by simp [hf])
    obtain ⟨-, hcases⟩ := h.orderly.finish_cases hf
    have deployed : after.toDeployment = _ := deployed_finish hr hf
    have told : (Report.ofFlushed ((finishFlush f.batch f.cause).run t.world.coordinator).1).ended =
        some .rolledBack := by
      simpa [World.act, hr] using ended
    have restored : after.toDeployment.world.coordinator.plan.semesters = f.batch.snapshot.semesters := by
      rw [deployed]
      rcases hcases with ⟨-, hr, -⟩ | ⟨-, -, hr, -⟩ | ⟨-, -, hp, -⟩
      · rw [hr] at told
        cases told
      · rw [hr] at told
        cases told
      · exact (congrArg Plan.semesters hp).trans (touch_semesters _)
    have archive : after.toDeployment.archive = t.archive := by rw [deployed]
    have distinct : ((t.archive.rows user).map (·.id)).Nodup := h.distinct
    -- the plan after the rollback lists what it listed when the batch was opened
    have same : Plan.sorted after.world.coordinator.plan.semesters = Plan.sorted t.begun.plan.semesters := by
      rw [restored, stands.taken, sorted_sorted]
    have dated : ∀ s ∈ after.world.coordinator.plan.semesters, s.Dated := later.orderly.plan.dated
    refine ⟨?_, suffix, fun keeps => ?_, fun mirrors => ?_⟩
    · rw [ordered_of_dated dated, ordered_of_dated stands.plan.dated, same]
    · have before : InStep (t.begun.archive.rows user) after.world.coordinator.plan :=
        ((mirrors_iff stands.distinct).1 inStep).congr dated same
      rw [archive, mirrors_iff distinct]
      exact (inStep_performedAll before stands.distinct stands.performed keeps).2
    · rw [archive, mirrors_iff distinct] at mirrors
      exact sending.keeps mirrors

/-- A course is added and removed again. The delete is carried out, but the save fails and the write is taken
back. The plan did not have the course, so the rows are still in step. -/
theorem rolledBack_inStep_removed :
    let row : Row :=
      { id := 202400, term := { season := "Fall", year := 2024 }, total := 0, gpa := 0.0, maxCredits := 18,
        courses := [[("id", .int 1), ("code", .str "CS 101"), ("semester_id", .int 202400)]], isActive := false }
    let archive : Archive := { users := [("user-a", [row])] }
    let remote : Remote := { stored := some (.ok (archive.document "user-a")) }
    let arrival : IdentityEvent := { user := some "user-a", kind := .signedIn }
    let v := (World.identify { coordinator := .new 0.4 none } arrival remote).1
    let added : Entry := { id := .int 2, code := .str "CS 102", title := .str "", credits := 3, status := .planned
                           semester := .int 202400, grade := none }
    let events : List Event :=
      [.act (.mutate (.add added)), .act (.mutate (.remove (.int 202400) (.int 2))), .act .flush,
      .act (.reply 0 .accepted), .act (.reply 0 .rejected)]
    let t := events.foldl step (start { world := v, archive })
    let after := t.step (.act (.finish 0))
    t.took.length = 1 ∧ after.archive.Mirrors "user-a" after.world.coordinator.plan := by
  intro row archive remote arrival v added events t after
  obtain ⟨xs, listed⟩ := ok_of_isSome (show v.coordinator.plan.ordered.toOption.isSome = true by decide +kernel)
  have run : Runs Allowed step (start { world := v, archive }) t := Runs.start.all events (by decide +kernel)
  have user : arrival.user = some "user-a" := rfl
  have took : t.took.length = 1 := by decide +kernel
  have ended : (t.world.act (.finish 0)).2.ended = some .rolledBack := by decide +kernel
  have inStep : t.begun.archive.Mirrors "user-a" t.begun.plan := by decide +kernel
  have keeps : ∀ call ∈ t.begun.calls, call.Keeps (t.step (.act (.finish 0))).world.coordinator.plan := by
    decide +kernel
  have began : v.coordinator.owner = some "user-a" ∧ v.coordinator.backend = some "user-a" := by decide +kernel
  have distinct : ((archive.rows "user-a").map (·.id)).Nodup := by decide +kernel
  clear_value t
  obtain ⟨-, -, mirrors, -⟩ :=
    rolledBack_inStep (.new 0.4 none) user nofun began.1 began.2 listed nofun distinct run ended inStep
  exact ⟨took, mirrors keeps⟩

/-- A course is removed. The delete is carried out, but the save fails and the write is taken back: the course
is in the plan again and in no row. -/
theorem rolledBack_lost :
    let row : Row :=
      { id := 202400, term := { season := "Fall", year := 2024 }, total := 0, gpa := 0.0, maxCredits := 18,
        courses := [[("id", .int 1), ("code", .str "CS 101"), ("semester_id", .int 202400)]], isActive := false }
    let archive : Archive := { users := [("user-a", [row])] }
    let remote : Remote := { stored := some (.ok (archive.document "user-a")) }
    let arrival : IdentityEvent := { user := some "user-a", kind := .signedIn }
    let v := (World.identify { coordinator := .new 0.4 none } arrival remote).1
    let events : List Event := [.act (.mutate (.remove (.int 202400) (.int 1))), .act .flush, .act (.reply 0 .accepted),
      .act (.reply 0 .rejected)]
    let t := events.foldl step (start { world := v, archive })
    let after := t.step (.act (.finish 0))
    t.begun.archive.Mirrors "user-a" t.begun.plan ∧ (t.world.act (.finish 0)).2.ended = some .rolledBack ∧
      ¬ after.archive.Mirrors "user-a" after.world.coordinator.plan ∧
      after.world.coordinator.plan.entries.map (·.id) = [.int 1] ∧
      (after.archive.rows "user-a").flatMap (·.courses) = [] := by
  decide +kernel

end Attempt
end DegreePlan.Sync
