import DegreePlan.Proofs.Sync.Orderly

/-!
# Writes that overlap

Two writes may be under way at once, and the backend may answer them in any order. What a write saves
is fixed when it begins. So the last record that is saved of a semester is the current one as long as
no save overtakes an earlier write that still has to save the same semester; when one does, the older
record comes last and stays.
-/

namespace DegreePlan.Sync

open Plan

/-! ## What is saved -/

/-- The record that a call saves. -/
def Call.payload? : Call → Option Json
  | .delete _ => none
  | .save payload => some payload

/-- The records that a write still has to save, in order. -/
def Flight.unsaved (f : Flight) : List Json := f.left.filterMap Call.payload?

/-- The semester of a record. -/
def recordId (payload : Json) : Json := Json.fieldOf (payload.fields?.getD []) "id"

/-- The last record of a semester. -/
def lastOf (id : Json) (records : List Json) : Option Json := (records.filter fun r => (recordId r).same id).getLast?

/-- No earlier write still has to save the semester that this write saves next. -/
def World.InTurn (fs : List Flight) (i : Nat) : Prop :=
  ∀ f ∈ fs[i]?, ∀ payload ∈ f.left.head?.bind Call.payload?, ∀ g ∈ fs.take i, ∀ other ∈ g.unsaved,
    (recordId other).same (recordId payload) = false

instance (fs : List Flight) (i : Nat) : Decidable (World.InTurn fs i) :=
  inferInstanceAs (Decidable (∀ f ∈ fs[i]?, ∀ payload ∈ f.left.head?.bind Call.payload?,
    ∀ g ∈ fs.take i, ∀ other ∈ g.unsaved,
    (recordId other).same (recordId payload) = false))

/-- A session with the records that were saved in it, in the order in which this took effect. -/
structure Transcript where
  world : World
  saved : List Json := []

namespace Transcript

/-- A session that begins. -/
def start (w : World) : Transcript := { world := w }

/-- Lets something happen. A record is saved when the backend accepts the call. -/
def step (t : Transcript) (e : Event) : Transcript where
  world := (t.world.step e).1
  saved := match e with
    | .act (.reply i .accepted) => t.saved ++ ((t.world.flights[i]?.bind (·.left.head?)).bind Call.payload?).toList
    | _ => t.saved

/-- What may happen in a session in which the backend accepts every call and no save overtakes an
earlier write of the same semester. -/
def Allowed (t : Transcript) : Event → Prop
  | .act (.mutate m) => m.Plain
  | .act (.retry failure) => ∀ m ∈ failure.mutations, m.Plain
  | .act .flush | .act .expire => t.world.coordinator.queued.isSome → Averaged t.world.coordinator.plan
  | .act (.reply i r) => r = .accepted ∧ World.InTurn t.world.flights i
  | .act _ => True
  | .late _ => True
  | .identity .. => False

instance (t : Transcript) : (e : Event) → Decidable (t.Allowed e)
  | .act (.mutate m) => inferInstanceAs (Decidable m.Plain)
  | .act (.retry failure) => inferInstanceAs (Decidable (∀ m ∈ failure.mutations, m.Plain))
  | .act .flush | .act .expire =>
    inferInstanceAs (Decidable (t.world.coordinator.queued.isSome → Averaged t.world.coordinator.plan))
  | .act (.reply i r) => inferInstanceAs (Decidable (r = .accepted ∧ World.InTurn t.world.flights i))
  | .act (.finish _) | .act .close | .act (.listen _) | .act (.unlisten _) | .late _ => instDecidableTrue
  | .identity .. => instDecidableFalse

/-- The records that were saved, and after them those that are still to be saved, write by write. -/
def stream (t : Transcript) : List Json := t.saved ++ t.world.flights.flatMap (·.unsaved)

/-! ## The last record -/

theorem lastOf_append (id : Json) (xs ys : List Json) : lastOf id (xs ++ ys) = (lastOf id ys).or (lastOf id xs) := by
  rw [lastOf, List.filter_append, List.getLast?_append]; rfl

theorem mem_of_lastOf {id r : Json} {xs : List Json} (h : lastOf id xs = some r) :
    r ∈ xs ∧ (recordId r).same id = true :=
  List.mem_filter.1 (List.mem_of_getLast? h)

theorem lastOf_isSome {id r : Json} {xs : List Json} (hr : r ∈ xs) (hi : (recordId r).same id = true) :
    (lastOf id xs).isSome = true := by
  rw [lastOf, List.getLast?_isSome]
  exact List.ne_nil_of_mem (List.mem_filter.2 ⟨hr, hi⟩)

/-- A record may go before others that are of other semesters. -/
theorem lastOf_overtake (id payload : Json) {xs : List Json}
    (h : ∀ r ∈ xs, (recordId r).same (recordId payload) = false) (before after : List Json) :
    lastOf id (before ++ payload :: (xs ++ after)) = lastOf id (before ++ (xs ++ payload :: after)) := by
  simp only [lastOf, List.filter_append, List.filter_cons]
  cases hp : (recordId payload).same id with
  | false => rfl
  | true =>
    -- none of the records in between is of this semester
    have none_between : xs.filter (fun r => (recordId r).same id) = [] := by
      rw [List.filter_eq_nil_iff]
      intro r hr hi
      have := h r hr
      rw [Json.same_trans hi (Json.same_symm hp)] at this
      cases this
    simp [none_between]

theorem recordId_toJson {s : Semester} {json : Json} (h : s.toJson = .ok json) : recordId json = .int s.id := by
  simp only [Semester.toJson, bind_eq_ok, pure_eq_ok] at h
  obtain ⟨x, -, rfl⟩ := h
  rfl

/-! ## What every step keeps -/

/-- What holds throughout a session: the last record of a semester is the current one, whether it is
saved already or still on its way, unless the semester waits to be written. -/
structure Current (user : String) (t : Transcript) : Prop where
  plan : Fit user t.world.coordinator.plan
  connected : t.world.coordinator.backend = some user
  queued : ∀ b ∈ t.world.coordinator.queued, b.Fit user
  named : ∀ b ∈ t.world.coordinator.queued, ∀ v ∈ b.semesters,
    ∃ s ∈ t.world.coordinator.plan.semesters, v.same (.int s.id) = true
  succeeding : ∀ f ∈ t.world.flights, f.cause = none
  late : ∀ f ∈ t.world.late, f.batch.epoch < t.world.coordinator.epoch
  latest : ∀ id payload, lastOf id t.stream = some payload →
    (∃ b ∈ t.world.coordinator.queued, id.isIn b.semesters = true) ∨
    ∃ s ∈ t.world.coordinator.plan.semesters, id.same (.int s.id) = true ∧ s.toJson = .ok payload

variable {user : String} {t : Transcript} {w : World}

open Coordinator

/-- The session went on with the same plan and the same batch, and what is or will be saved is the same. -/
theorem Current.rest (h : t.Current user) {saved : List Json} (stays : Stays t.world.coordinator w.coordinator)
    (hp : w.coordinator.plan = t.world.coordinator.plan) (hq : w.coordinator.queued = t.world.coordinator.queued)
    (hf : ∀ f ∈ w.flights, f.cause = none) (hl : ∀ f ∈ w.late, ∃ g ∈ t.world.late, f.batch = g.batch)
    (hs : ∀ id, lastOf id (saved ++ w.flights.flatMap (·.unsaved)) = lastOf id t.stream) :
    Current user { world := w, saved } where
  plan := hp ▸ h.plan
  connected := stays.backend.trans h.connected
  queued := by rw [hq]; exact h.queued
  named := by rw [hp, hq]; exact h.named
  succeeding := hf
  late f hf := by
    obtain ⟨g, hg, hb⟩ := hl f hf
    rw [hb, stays.epoch]
    exact h.late g hg
  latest id payload hlast := by
    rw [hp, hq]
    exact h.latest id payload ((hs id).symm.trans hlast)

theorem Current.apply (h : t.Current user) {m : Mutation} (hm : m.Plain) :
    Current user { t with
        world := { t.world with coordinator := ((Coordinator.apply m).run t.world.coordinator).2 } } := by
  obtain ⟨stays, -, ⟨hp, hq⟩ | ⟨snapshot, e, b, hs, made, -, hq, hb⟩⟩ := t.world.coordinator.apply_made m
  · exact h.rest stays hp hq h.succeeding (fun f hf => ⟨f, hf, rfl⟩) fun _ => rfl
  have shaped := (Mutation.done made).shaped
  have does := (Mutation.done made).made h.plan.valid
  -- the semesters from before are still there, and one that was not touched is as it was
  have there : ∀ s ∈ t.world.coordinator.plan.semesters,
      ∃ s' ∈ ((Coordinator.apply m).run t.world.coordinator).2.plan.semesters, s'.id = s.id :=
    fun s hs => List.mem_map.1 (ids_shaped shaped (List.mem_map_of_mem hs))
  have untouched : ∀ s ∈ t.world.coordinator.plan.semesters, (Json.int s.id).isIn e.semesters = false →
      s ∈ ((Coordinator.apply m).run t.world.coordinator).2.plan.semesters := by
    intro s hs hn
    obtain ⟨s', hs', hid⟩ := there s hs
    have hold : s' ∈ t.world.coordinator.plan.semesters := by
      refine (does.covered s' hs').resolve_right fun hin => ?_
      rw [hid, hn] at hin
      cases hin
    rw [← List.inj_on_of_nodup_map h.plan.valid.ids hold hs hid]
    exact hs'
  have before : b.Fit user ∧
    (∀ v ∈ b.semesters, ∃ s ∈ t.world.coordinator.plan.semesters, v.same (.int s.id) = true) ∧
      ∀ b' ∈ t.world.coordinator.queued, b' = b := by
    rcases hb with hb | ⟨hn, rfl⟩
    · exact ⟨h.queued b hb, h.named b hb, fun b' hb' => Option.some.inj (hb'.symm.trans hb)⟩
    · refine ⟨.new h.plan hs _ _ _, nofun, fun b' hb' => ?_⟩
      cases hn.symm.trans hb'
  refine ⟨h.plan.mutate hm made, stays.backend.trans h.connected, fun b' hb' => ?_, fun b' hb' v hv => ?_,
    h.succeeding, fun f hf => by rw [stays.epoch]; exact h.late f hf, fun id payload hlast => ?_⟩
  · cases hq.symm.trans hb'
    exact before.1.push made h.plan hm
  · cases hq.symm.trans hb'
    rcases List.mem_append.1 (Json.mem_of_mem_distinct hv) with hv | hv
    · obtain ⟨s, hs, hvs⟩ := before.2.1 v hv
      obtain ⟨s', hs', hid⟩ := there s hs
      exact ⟨s', hs', by rw [hid]; exact hvs⟩
    · exact does.named v hv
  · have pushed : ∀ v : Json, v.isIn (b.push m e).semesters =
        (v.isIn b.semesters || v.isIn e.semesters) := fun v => by
      rw [Batch.push, Json.isIn_distinct, Json.isIn_append]
    rcases h.latest id payload hlast with ⟨b', hb', hin⟩ | ⟨s, hs, hid, hjson⟩
    · rw [before.2.2 b' hb'] at hin
      exact .inl ⟨_, hq, by rw [pushed, hin]; rfl⟩
    · cases hin : (Json.int s.id).isIn e.semesters with
      | true => exact .inl ⟨_, hq, by rw [pushed, Json.isIn_congr e.semesters hid, hin, Bool.or_true]⟩
      | false => exact .inr ⟨s, untouched s hs hin, hid, hjson⟩

theorem start_cause (p : Plan) (b : Batch) {w : Write} (h : w.backend = some user) :
    (Flight.start p b w).cause = none := by
  simp [Flight.start, h]

/-- At the beginning of a write all its records are still to be saved. -/
theorem start_unsaved (p : Plan) (b : Batch) {w : Write} (h : w.backend = some user) :
    (Flight.start p b w).unsaved = w.payloads := by
  have saves : (w.payloads.map Call.save).filterMap Call.payload? = w.payloads := by
    rw [List.filterMap_map]
    exact List.filterMap_some
  have deletes : (if w.deleted.isEmpty then [] else [Call.delete w.deleted]).filterMap Call.payload? = [] := by
    split <;> rfl
  rw [Flight.unsaved, Flight.start_left p b h, Write.calls, List.filterMap_append, saves, deletes, List.nil_append]

/-- A write begins with the current records of what the batch names. -/
theorem Current.launch (h : t.Current user)
    (ha : t.world.coordinator.queued.isSome → Averaged t.world.coordinator.plan) :
    Current user { t with world := t.world.launch.1 } := by
  rcases beginFlush_fit h.plan h.queued ha with ⟨hq, hr⟩ | ⟨b, ps, gone, hq, hps, -, hr⟩
  · have hw : t.world.launch.1 = { t.world with coordinator := t.world.coordinator.stopTimer } := by
      simp only [World.launch, hr]
    rw [hw]
    exact h.rest (stays_stopTimer _) (stopTimer_plan _) (stopTimer_queued _) h.succeeding
      (fun f hf => ⟨f, hf, rfl⟩) fun _ => rfl
  · have averaged : Averaged t.world.coordinator.plan := ha (by rw [hq]; rfl)
    have records (json : Json) : json ∈ ps ↔ _ :=
      mem_payloads_iff h.plan (t.world.coordinator.fit_closed (h.queued b hq)) averaged hps
    obtain ⟨f, hf⟩ : ∃ f, f = Flight.start t.world.coordinator.plan (t.world.coordinator.closed b)
        { backend := t.world.coordinator.backend, deleted := gone, payloads := ps } := ⟨_, rfl⟩
    have unsaved : f.unsaved = ps := hf ▸ start_unsaved _ _ h.connected
    have hw : t.world.launch.1 = { t.world with
        coordinator := { t.world.coordinator.stopTimer with
          queued := none, inFlight := t.world.coordinator.inFlight ++ [t.world.coordinator.closed b],
                         state := .pending }
        flights := t.world.flights ++ [f] } := by
      simp only [World.launch, hr, stopTimer_plan, hf]
    rw [hw]
    refine ⟨by simpa using h.plan, by simpa using h.connected, fun b hb => (by cases hb), fun b hb => (by cases hb),
      fun g hg => ?_, by simpa using h.late, fun id payload hlast => .inr ?_⟩
    · rcases List.mem_append.1 hg with hg | hg
      · exact h.succeeding g hg
      · rw [List.mem_singleton.1 hg, hf]
        exact start_cause _ _ h.connected
    · -- the new records come at the end of the stream
      have longer : lastOf id (t.stream ++ ps) = some payload := by
        rw [← hlast]
        simp [stream, unsaved]
      rw [lastOf_append] at longer
      simp only [stopTimer_plan]
      cases hnew : lastOf id ps with
      | some json =>
        rw [hnew, Option.some_or] at longer
        cases longer
        obtain ⟨hmem, hid⟩ := mem_of_lastOf hnew
        obtain ⟨s, hs, -, hjson⟩ := (records payload).1 hmem
        rw [recordId_toJson hjson] at hid
        exact ⟨s, hs, Json.same_symm hid, hjson⟩
      | none =>
        rw [hnew, Option.none_or] at longer
        refine (h.latest id payload longer).resolve_left ?_
        rintro ⟨b', hb', hin⟩
        cases hq.symm.trans hb'
        -- the batch names the semester, so its record is among those that are written now
        obtain ⟨v, hv, hvid⟩ := List.any_eq_true.1 hin
        obtain ⟨s, hs, hvs⟩ := h.named b hq v hv
        obtain ⟨x, hx⟩ := averaged s hs
        obtain ⟨json, hjson⟩ := toJson_ok hx
        have hsin : (Json.int s.id).isIn b.semesters = true := isIn_of_same hv hvs
        have found : (lastOf id ps).isSome = true := lastOf_isSome ((records json).2 ⟨s, hs, hsin, hjson⟩)
          (by rw [recordId_toJson hjson]; exact Json.same_symm (Json.same_trans hvid hvs))
        rw [hnew] at found
        cases found

theorem eq_take_cons_drop {α : Type} {l : List α} {i : Nat} {x : α} (h : l[i]? = some x) :
    l = l.take i ++ x :: l.drop (i + 1) := by
  obtain ⟨hlt, rfl⟩ := List.getElem?_eq_some_iff.1 h
  rw [← List.drop_eq_getElem_cons hlt, List.take_append_drop]

/-- An accepted save that is in turn moves ahead of earlier writes that save other semesters only. -/
theorem Current.reply (h : t.Current user) {i : Nat} (inTurn : World.InTurn t.world.flights i) :
    Current user (t.step (.act (.reply i .accepted))) := by
  cases hi : t.world.flights[i]? with
  | none =>
    have same : t.step (.act (.reply i .accepted)) = t := by simp [step, World.step, World.act, World.answered, hi]
    rw [same]
    exact h
  | some f =>
    obtain ⟨hlt, hget⟩ := List.getElem?_eq_some_iff.1 hi
    cases hl : f.left with
    | nil =>
      have idle : t.world.flights.set i (f.answer .accepted) = t.world.flights := by
        have unanswered : f.answer .accepted = f := by simp [Flight.answer, hl]
        rw [unanswered, ← hget, List.set_getElem_self]
      have same : t.step (.act (.reply i .accepted)) = t := by
        simp [step, World.step, World.act, World.answered, hi, hl, idle]
      rw [same]
      exact h
    | cons call rest =>
      obtain ⟨-, answered⟩ := (Flight.answer_cons hl .accepted).resolve_right fun refused => refused.1 rfl
      have moved : t.step (.act (.reply i .accepted)) =
          { world := { t.world with flights := t.world.flights.set i { f with left := rest } }
            saved := t.saved ++ call.payload?.toList } := by
        simp [step, World.step, World.act, World.answered, hi, hl, answered]
      rw [moved]
      refine h.rest (.refl _) rfl rfl (fun g hg => ?_) (fun g hg => ⟨g, hg, rfl⟩) fun id => ?_
      · rcases List.mem_or_eq_of_mem_set hg with hg | rfl
        · exact h.succeeding g hg
        · exact h.succeeding f (List.mem_of_getElem? hi)
      -- the writes before it, this one, and the writes after it
      have before := eq_take_cons_drop hi
      have after : t.world.flights.set i { f with left := rest } =
          t.world.flights.take i ++ { f with left := rest } :: t.world.flights.drop (i + 1) := by
        rw [List.set_eq_take_append_cons_drop, if_pos hlt]
      have left : f.unsaved = call.payload?.toList ++ rest.filterMap Call.payload? := by
        rw [Flight.unsaved, hl, List.filterMap_cons]
        cases call.payload? <;> rfl
      have gone : ({ f with left := rest } : Flight).unsaved = rest.filterMap Call.payload? := rfl
      simp only [stream]
      rw [after]
      conv_rhs => rw [before]
      simp only [List.flatMap_append, List.flatMap_cons, left, gone]
      cases call with
      | delete ids => simp [Call.payload?]
      | save payload =>
        have others : ∀ r ∈ (t.world.flights.take i).flatMap (·.unsaved),
            (recordId r).same (recordId payload) = false := by
          intro r hr
          obtain ⟨g, hg, hr⟩ := List.mem_flatMap.1 hr
          exact inTurn f hi payload (by rw [hl]; rfl) g hg r hr
        have swap := lastOf_overtake id payload others t.saved
          (rest.filterMap Call.payload? ++ (t.world.flights.drop (i + 1)).flatMap (·.unsaved))
        simpa [Call.payload?] using swap

/-- A write that ends has saved all its records. -/
theorem Current.finish (h : t.Current user) (i : Nat) :
    Current user { t with world := (t.world.act (.finish i)).1 } := by
  simp only [World.act]
  split
  · exact h
  next f hready =>
  obtain ⟨hi, hempty⟩ := Option.filter_eq_some_iff.1 hready
  have done : f.unsaved = [] := by rw [Flight.unsaved, List.isEmpty_iff.1 hempty]; rfl
  rw [h.succeeding f (List.mem_of_getElem? hi)]
  obtain ⟨stays, hp, hq⟩ := finishFlush_succeeded t.world.coordinator f.batch
  refine h.rest stays hp hq (fun g hg => h.succeeding g (List.mem_of_mem_eraseIdx hg))
    (fun g hg => ⟨g, hg, rfl⟩) fun id => ?_
  have before := eq_take_cons_drop hi
  simp only [stream]
  conv_rhs => rw [before]
  rw [List.eraseIdx_eq_take_drop_succ]
  simp [done]

/-- Writes of earlier sessions do not come into it. -/
theorem Current.lateAct (h : t.Current user) (a : LateAct) :
    Current user { t with world := (t.world.lateAct a).1 } := by
  cases a with
  | reply i r =>
    refine h.rest (.refl _) rfl rfl h.succeeding (fun f hf => ?_) fun _ => rfl
    obtain ⟨g, hg, hb, -⟩ := World.mem_answered hf
    exact ⟨g, hg, hb⟩
  | finish i =>
    simp only [World.lateAct]
    split
    · exact h
    · next f hready =>
      obtain ⟨stays, hp, hq, -⟩ := finishFlush_late (h.late f (World.ready?_mem hready).1) f.cause
      exact h.rest stays hp hq h.succeeding (fun g hg => ⟨g, List.mem_of_mem_eraseIdx hg, rfl⟩) fun _ => rfl

theorem Current.still (h : t.Current user) {a : Act} (ha : a.Still) :
    Current user { t with world := (t.world.act a).1 } := by
  obtain ⟨d, hd, stays, hp, hq, -⟩ := t.world.still_frame ha
  rw [hd]
  exact h.rest stays hp hq h.succeeding (fun f hf => ⟨f, hf, rfl⟩) fun _ => rfl

/-- Every allowed event keeps the last records current. -/
theorem Current.step {t : Transcript} {e : Event} (h : t.Current user) (he : t.Allowed e) :
    Current user (t.step e) := by
  cases e with
  | late a => exact h.lateAct a
  | identity => exact he.elim
  | act a =>
    cases a with
    | mutate m => exact h.apply he
    | retry failure =>
      exact World.retry_induction (P := fun w => Current user { t with world := w })
        (fun c m hm hc => hc.apply (he m hm)) h
    | flush => exact h.launch he
    | expire =>
      change Current user { t with world := (t.world.act .expire).1 }
      obtain ⟨timers, -, expired⟩ | expired := t.world.expire_cases <;> rw [expired]
      · have waiting :
            Current user { t with world := { t.world with coordinator := { t.world.coordinator with timers } } } :=
          h.rest (stays_timers _ timers) rfl rfl h.succeeding (fun f hf => ⟨f, hf, rfl⟩) fun _ => rfl
        exact waiting.launch he
      · exact h
    | reply i r =>
      obtain ⟨rfl, inTurn⟩ := he
      exact h.reply inTurn
    | finish i => exact h.finish i
    | close => exact h.still trivial
    | listen fault => exact h.still trivial
    | unlisten i => exact h.still trivial

theorem current_start (hw : w.Counted) {event : IdentityEvent} {remote : Remote} (hu : event.user = some user)
    (ho : w.coordinator.owner ≠ some user) (began : (w.identify event remote).1.coordinator.owner = some user)
    (connected : (w.identify event remote).1.coordinator.backend = some user)
    (hd : ∀ s ∈ (w.identify event remote).1.coordinator.plan.semesters, s.Dated) :
    Current user (start (w.identify event remote).1) := by
  have orderly := World.orderly_identify hw hu ho began hd
  obtain ⟨backend, plan, cache, log, state, -, he⟩ := w.identify_frame hu ho began
  have quiet : (w.identify event remote).1.Quiet := by
    rw [he]
    exact ⟨rfl, rfl⟩
  have waits : ∀ b, (w.identify event remote).1.coordinator.queued ≠ some b := fun b hb => by
    cases quiet.1.symm.trans hb
  exact {
    plan := orderly.plan
    connected
    queued := fun b hb => absurd hb (waits b)
    named := fun b hb => absurd hb (waits b)
    succeeding := by
      simp only [start, quiet.2]
      exact fun _ hf => (List.not_mem_nil hf).elim
    late := fun f hf => (orderly.late f hf).2
    latest := fun id payload hlast => by
      simp only [start, stream, quiet.2] at hlast
      cases hlast }

/-! ## Once nothing is pending -/

/-- Take any run of a session in which the backend accepts every call and no save overtakes an earlier
write of the same semester. Once nothing is pending, the last record that was saved of a semester is the
current one. -/
theorem last_saved_current (hw : World.Reachable w) {event : IdentityEvent} {remote : Remote}
    (hu : event.user = some user) (ho : w.coordinator.owner ≠ some user)
    (began : (w.identify event remote).1.coordinator.owner = some user)
    (connected : (w.identify event remote).1.coordinator.backend = some user)
    {xs : List Semester} (listed : (w.identify event remote).1.coordinator.plan.ordered = .ok xs)
    {t : Transcript} (run : Runs Allowed step (start (w.identify event remote).1) t) (quiet : t.world.Quiet)
    {id payload : Json} (last : lastOf id t.saved = some payload) :
    ∃ s ∈ t.world.coordinator.plan.semesters, id.same (.int s.id) = true ∧ s.toJson = .ok payload := by
  have begins := current_start hw.counted hu ho began connected (ordered_eq_ok.1 listed).1
  have h : t.Current user := run.keeps begins fun _ _ h he => h.step he
  have streamed : lastOf id t.stream = some payload := by
    rw [stream, quiet.2, List.flatMap_nil, List.append_nil]
    exact last
  refine (h.latest id payload streamed).resolve_left ?_
  rintro ⟨b, hb, -⟩
  cases quiet.1.symm.trans hb

/-- A course is completed, and before the write of this ends another one is added in a write of its own,
which ends first. The first write had saved its record before, so nothing was overtaken. -/
theorem last_saved_current_overlapping :
    let remote : Remote := { stored := some (.ok (.arr [.obj [("id", .int 202400), ("courses", .arr
      [.obj [("id", .int 1), ("code", .str "CS 101"), ("semester_id", .int 202400)]])]])) }
    let arrival : IdentityEvent := { user := some "user-a", kind := .signedIn }
    let v := (World.identify { coordinator := .new 0.4 none } arrival remote).1
    let course : Entry := { id := .int 2, code := .str "CS 102", title := .str "", credits := 3, status := .planned
                            semester := .int 202400, grade := none }
    let events : List Event :=
      [.act (.mutate (.setStatus (.int 202400) (.int 1) (.str "completed") .null)), .act .flush,
      .act (.reply 0 .accepted), .act (.mutate (.add course)), .act .flush, .act (.reply 1 .accepted), .act (.finish 1),
      .act (.finish 0)]
    let t := events.foldl step (start v)
    t.saved.length = 2 ∧ ∃ payload, lastOf (.int 202400) t.saved = some payload ∧
      ∃ s ∈ t.world.coordinator.plan.semesters, (Json.int 202400).same (.int s.id) = true ∧
        s.toJson = .ok payload := by
  intro remote arrival v course events t
  obtain ⟨xs, listed⟩ := ok_of_isSome (show v.coordinator.plan.ordered.toOption.isSome = true by decide +kernel)
  have run : Runs Allowed step (start v) t := Runs.start.all events (by decide +kernel)
  have quiet : t.world.Quiet := by
    constructor
    · exact Option.isNone_iff_eq_none.1 (by decide +kernel)
    · exact List.isEmpty_iff.1 (by decide +kernel)
  obtain ⟨payload, last⟩ : ∃ payload, lastOf (.int 202400) t.saved = some payload :=
    Option.isSome_iff_exists.1 (by decide +kernel)
  have user : arrival.user = some "user-a" := rfl
  have current :=
    last_saved_current (.new 0.4 none) user nofun (by decide +kernel) (by decide +kernel) listed run quiet last
  exact ⟨by decide +kernel, payload, last, current⟩

/-- The courses of a record. -/
def recordCourses (payload : Json) : List Json :=
  match Json.fieldOf (payload.fields?.getD []) "courses" with
  | .arr courses => courses
  | _ => []

/-- A course is completed, and before this is saved another one is added in a write of its own, which
ends first. The backend accepted everything and nothing is pending, but the record that was saved last
has one course, and the plan has two. -/
theorem last_saved_overtaken :
    let remote : Remote := { stored := some (.ok (.arr [.obj [("id", .int 202400), ("courses", .arr
      [.obj [("id", .int 1), ("code", .str "CS 101"), ("semester_id", .int 202400)]])]])) }
    let arrival : IdentityEvent := { user := some "user-a", kind := .signedIn }
    let v := (World.identify { coordinator := .new 0.4 none } arrival remote).1
    let course : Entry := { id := .int 2, code := .str "CS 102", title := .str "", credits := 3, status := .planned
                            semester := .int 202400, grade := none }
    let events : List Event :=
      [.act (.mutate (.setStatus (.int 202400) (.int 1) (.str "completed") .null)), .act .flush,
      .act (.mutate (.add course)), .act .flush, .act (.reply 1 .accepted), .act (.finish 1), .act (.reply 0 .accepted),
      .act (.finish 0)]
    let t := events.foldl step (start v)
    t.world.coordinator.queued.isNone = true ∧ t.world.flights.isEmpty = true ∧
      t.world.coordinator.lastOutcome = some .committed ∧
      (lastOf (.int 202400) t.saved).map (fun payload => (recordCourses payload).length) = some 1 ∧
      t.world.coordinator.plan.semesters.map (fun s => (s.id, s.courses.length)) = [(202400, 2)] := by
  decide +kernel

end Transcript
end DegreePlan.Sync
