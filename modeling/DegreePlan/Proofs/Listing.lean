import DegreePlan.Proofs.Archive

/-!
# Rows in step with a plan

Two plans list the same semesters just when the canonical forms of their semesters are equal, in the
order of time. Rows are in step with a plan if what is loaded from them lists the same. A delete of
courses that the plan does not have keeps this, and so does a row that is read as the plan has it.
-/

namespace DegreePlan

/-! ## Canonical forms -/

/-- The course with its values in canonical form. -/
def Entry.canonical (e : Entry) : Entry :=
  { e with id := e.id.canonical, code := e.code.canonical, title := e.title.canonical,
           semester := e.semester.canonical }

/-- The semester with its values in canonical form. -/
def Semester.canonical (s : Semester) : Semester :=
  { s with courses := s.courses.map Entry.canonical, maxCredits := s.maxCredits.canonical }

theorem Semester.id_eq_of_canonical {s t : Semester} (h : s.canonical = t.canonical) : s.id = t.id :=
  (Semester.mk.inj h).1

theorem Semester.term_eq_of_canonical {s t : Semester} (h : s.canonical = t.canonical) : s.term = t.term :=
  (Semester.mk.inj h).2.1

/-- Semesters that are alike have courses of the same ids. -/
theorem Semester.course_of_canonical {s t : Semester} (h : s.canonical = t.canonical) {e : Entry}
    (he : e ∈ s.courses) : ∃ e' ∈ t.courses, e'.id.same e.id = true := by
  have courses : s.courses.map Entry.canonical = t.courses.map Entry.canonical := (Semester.mk.inj h).2.2.1
  obtain ⟨e', he', hee⟩ :=
    List.mem_map.1 (courses ▸ List.mem_map_of_mem he : e.canonical ∈ t.courses.map Entry.canonical)
  exact ⟨e', he', Json.same_iff.2 (congrArg Entry.id hee)⟩

theorem Entry.same_iff {a b : Entry} : a.same b = true ↔ a.canonical = b.canonical := by
  cases a
  cases b
  simp only [same, canonical, Bool.and_eq_true, Json.same_iff, beq_iff_eq, Entry.mk.injEq]
  tauto

theorem all_zip_iff {α : Type} (same : α → α → Bool) (form : α → α)
    (h : ∀ a b, same a b = true ↔ form a = form b) (l m : List α) :
    (l.length = m.length ∧ (l.zip m).all (fun (x, y) => same x y) = true) ↔ l.map form = m.map form := by
  induction l generalizing m with
  | nil => cases m <;> simp
  | cons a l ih =>
    cases m with
    | nil => simp
    | cons b m =>
      simp only [List.length_cons, Nat.add_right_cancel_iff, List.zip_cons_cons, List.all_cons,
        Bool.and_eq_true, List.map_cons, List.cons.injEq, ← ih m, h a b]
      tauto

theorem Semester.same_iff {s t : Semester} : s.same t = true ↔ s.canonical = t.canonical := by
  have courses := all_zip_iff Entry.same Entry.canonical (fun _ _ => Entry.same_iff) s.courses t.courses
  cases s
  cases t
  simp only [same, canonical, Bool.and_eq_true, Json.same_iff, beq_iff_eq, Semester.mk.injEq] at courses ⊢
  tauto

namespace Plan

variable {p q : Plan}

theorem sorted_canonical (l : List Semester) : sorted (l.map Semester.canonical) = (sorted l).map Semester.canonical :=
  sorted_map fun _ _ => rfl

theorem sameListing_iff : p.SameListing q ↔ (∀ s ∈ p.semesters, s.Dated) ∧ (∀ s ∈ q.semesters, s.Dated) ∧
    (sorted p.semesters).map Semester.canonical = (sorted q.semesters).map Semester.canonical := by
  have listed := all_zip_iff Semester.same Semester.canonical fun _ _ => Semester.same_iff
  simp only [SameListing, snapshot_eq_ok, ordered_eq_ok, Snapshot.sameSemesters, Bool.and_eq_true, beq_iff_eq]
  constructor
  · rintro ⟨x, y, ⟨_, ⟨hp, rfl⟩, rfl⟩, ⟨_, ⟨hq, rfl⟩, rfl⟩, same⟩
    exact ⟨hp, hq, (listed _ _).1 same⟩
  · rintro ⟨hp, hq, same⟩
    exact ⟨_, _, ⟨_, ⟨hp, rfl⟩, rfl⟩, ⟨_, ⟨hq, rfl⟩, rfl⟩, (listed _ _).2 same⟩

instance (p q : Plan) : Decidable (p.SameListing q) :=
  decidable_of_iff ((match p.snapshot, q.snapshot with
    | .ok x, .ok y => x.sameSemesters y
    | _, _ => false) = true) <| by
    unfold SameListing
    cases p.snapshot <;> cases q.snapshot <;> simp

/-- Both plans have the same semesters, in any order. -/
def SameSemesters (p q : Plan) : Prop := (p.semesters.map Semester.canonical).Perm (q.semesters.map Semester.canonical)

/-- A plan has the same semesters as some of its own just if these are all. -/
theorem sameSemesters_only_iff {P : Semester → Bool} (h : (p.only P).SameSemesters q) :
    p.SameSemesters q ↔ ∀ s ∈ p.semesters, P s = true := by
  constructor
  · intro same
    have lengths : (p.semesters.filter P).length = p.semesters.length := by
      simpa [only] using (h.trans same.symm).length_eq
    exact List.filter_eq_self.1 (List.filter_sublist.eq_of_length lengths)
  · intro all
    have whole : p.only P = p := by rw [only, List.filter_eq_self.2 all]
    rwa [whole] at h

/-- Semesters that are read back are the same. -/
theorem sameSemesters_settled (hv : p.Valid) {l : List Semester} (perm : l.Perm p.semesters)
    (hq : q.semesters = l.map Semester.settled) : p.SameSemesters q := by
  have settled : l.map Semester.canonical = q.semesters.map Semester.canonical := by
    rw [hq, List.map_map]
    exact List.map_congr_left fun s hs => Semester.same_iff.1 (Semester.same_settled (hv.held s (perm.mem_iff.1 hs)))
  rw [SameSemesters, ← settled]
  exact (perm.map _).symm

end Plan

/-! ## Reading rows -/

/-- The row is read as this semester. -/
def Row.Reads (r : Row) (s : Semester) : Prop := Semester.ofJson r.toJson = .ok s

namespace Row.Reads

variable {r : Row} {s : Semester}

theorem id_eq (h : r.Reads s) : r.id = s.id := (Row.holds_of_ofJson h).2.2.1

theorem ids (h : r.Reads s) : r.courses.map CourseRecord.id = s.courses.map (·.id) := (Row.holds_of_ofJson h).1.ids

/-- Deleting courses that the semester does not have keeps what is read. -/
theorem dropCourses {ids : List Json} {r' : Row} {n : Nat} (h : r.Reads s) (hr : r.dropCourses ids = (r', .ok n))
    (hids : ∀ e ∈ s.courses, e.id.isIn ids = false) : r'.Reads s := by
  have held := (Row.holds_of_ofJson h).1.dropCourses hr hids
  rw [Row.Holds, Semester.settled_of_ofJson h] at held
  exact held

end Row.Reads

namespace Archive

open Plan

/-- No code and no id of a course comes twice, and every id is a key. -/
structure Loadable (l : List Semester) : Prop where
  codes : ((l.flatMap (·.courses)).map (·.code.canonical)).Nodup
  ids : ((l.flatMap (·.courses)).map (·.id.canonical)).Nodup
  keyed : ∀ e ∈ l.flatMap (·.courses), e.id.isKey = true

variable {l l' : List Semester} {rows rows' : List Row} {p q base : Plan}

theorem Loadable.congr (h : Loadable l) (same : l.map Semester.canonical = l'.map Semester.canonical) :
    Loadable l' := by
  have courses (m : List Semester) :
      (m.flatMap (·.courses)).map Entry.canonical = (m.map Semester.canonical).flatMap (·.courses) := by
    simp [List.flatMap_map, List.map_flatMap, Semester.canonical]
  have entries : (l.flatMap (·.courses)).map Entry.canonical = (l'.flatMap (·.courses)).map Entry.canonical := by
    rw [courses, same, courses]
  have kept (f : Entry → Json) :
      ((l.flatMap (·.courses)).map Entry.canonical).map f = ((l'.flatMap (·.courses)).map Entry.canonical).map f :=
    congrArg (List.map f) entries
  simp only [List.map_map] at kept
  refine ⟨?_, ?_, fun e he => ?_⟩
  · exact (kept (·.code)) ▸ h.codes
  · exact (kept (·.id)) ▸ h.ids
  · have hid : e.id.canonical ∈ (l.flatMap (·.courses)).map (·.id.canonical) := by
      have := kept (·.id)
      exact this ▸ List.mem_map_of_mem he
    obtain ⟨e', he', hsame⟩ := List.mem_map.1 hid
    exact Json.isKey_of_same (Json.same_iff.2 hsame.symm) (h.keyed e' he')

/-- Rows are loaded just when each of them is read as a semester and these can stand in one plan. -/
theorem load_rows_iff (hn : (rows.map (·.id)).Nodup) {document : Json}
    (hr : Plan.recordsOf document = .ok (rows.map Row.toJson)) :
    base.load document = .ok q ↔ ∃ l, List.Forall₂ Row.Reads rows l ∧ Loadable l ∧
    q = { base with semesters := l }.touch := by
  have listed {l : List Semester} (hl : List.Forall₂ Row.Reads rows l) : base.load document = .ok q ↔
      Loadable l ∧ q = { base with semesters := l }.touch := by
    have ids : rows.map (·.id) = l.map (·.id) := map_eq_of_forall₂ hl fun _ _ hs => hs.id_eq
    rw [Plan.load_records hr (List.forall₂_map_left_iff.2 hl) (ids ▸ hn)]
    exact ⟨fun ⟨hc, hi, hk, hq⟩ => ⟨⟨hc, hi, hk⟩, hq⟩, fun ⟨⟨hc, hi, hk⟩, hq⟩ =>
      ⟨hc, hi, hk, hq⟩⟩
  constructor
  · intro h
    obtain ⟨records, l, hrec, hl⟩ := Plan.load_read h
    obtain rfl : rows.map Row.toJson = records := Except.ok.inj (hr.symm.trans hrec)
    have hl : List.Forall₂ Row.Reads rows l :=
      List.forall₂_map_left_iff (R := fun v s => Semester.ofJson v = .ok s) (f := Row.toJson).1 hl
    exact ⟨l, hl, (listed hl).1 h⟩
  · rintro ⟨l, hl, h⟩
    exact (listed hl).2 h

/-! ## Rows in step -/

/-- What is loaded for the user lists the plan. -/
def Mirrors (a : Archive) (user : String) (p : Plan) : Prop :=
  ∃ q, ({ owner := some user } : Plan).load (a.document user) = .ok q ∧ p.SameListing q

instance (a : Archive) (user : String) (p : Plan) : Decidable (a.Mirrors user p) :=
  decidable_of_iff ((match ({ owner := some user } : Plan).load (a.document user) with
    | .ok q => decide (p.SameListing q)
    | .error _ => false) = true) <| by
    unfold Mirrors
    cases ({ owner := some user } : Plan).load (a.document user) <;> simp

/-- The rows are read as semesters that can be loaded and list the plan. -/
def InStep (rows : List Row) (p : Plan) : Prop :=
  ∃ l, List.Forall₂ Row.Reads rows l ∧ Loadable l ∧ (∀ s ∈ p.semesters, s.Dated) ∧
    (Plan.sorted p.semesters).map Semester.canonical = (Plan.sorted l).map Semester.canonical

/-- Semesters that are listed alike are of the same terms. -/
theorem dated_of_listed (hd : ∀ s ∈ p.semesters, s.Dated)
    (same : (Plan.sorted p.semesters).map Semester.canonical = (Plan.sorted l).map Semester.canonical) :
    ∀ s ∈ l, s.Dated := by
  intro t ht
  have listed : t.canonical ∈ (Plan.sorted p.semesters).map Semester.canonical :=
    same ▸ List.mem_map_of_mem (mem_sorted.2 ht)
  obtain ⟨s, hs, hst⟩ := List.mem_map.1 listed
  rw [Semester.Dated, ← Semester.term_eq_of_canonical hst]
  exact hd s (mem_sorted.1 hs)

theorem mirrors_iff {a : Archive} {user : String} (hn : ((a.rows user).map (·.id)).Nodup) :
    a.Mirrors user p ↔ InStep (a.rows user) p := by
  have loads (q : Plan) : ({ owner := some user } : Plan).load (a.document user) = .ok q ↔ _ :=
    load_rows_iff hn (recordsOf_document a user)
  constructor
  · rintro ⟨q, hq, same⟩
    obtain ⟨l, hl, hload, rfl⟩ := (loads q).1 hq
    obtain ⟨hd, -, hsame⟩ := sameListing_iff.1 same
    exact ⟨l, hl, hload, hd, hsame⟩
  · rintro ⟨l, hl, hload, hd, hsame⟩
    exact ⟨_, (loads _).2 ⟨l, hl, hload, rfl⟩, sameListing_iff.2 ⟨hd, dated_of_listed hd hsame, hsame⟩⟩

namespace InStep

/-- Plans that list the same are alike here. -/
theorem congr (h : InStep rows p) (hd : ∀ s ∈ q.semesters, s.Dated)
    (hq : Plan.sorted q.semesters = Plan.sorted p.semesters) : InStep rows q := by
  obtain ⟨l, hl, hload, -, same⟩ := h
  exact ⟨l, hl, hload, hd, hq ▸ same⟩

/-- Every semester of the plan is read from some row. -/
theorem row (h : InStep rows p) {s : Semester} (hs : s ∈ p.semesters) :
    ∃ r ∈ rows, ∃ t, r.Reads t ∧ s.canonical = t.canonical := by
  obtain ⟨l, hl, -, -, same⟩ := h
  have listed : s.canonical ∈ (Plan.sorted l).map Semester.canonical := same ▸ List.mem_map_of_mem (mem_sorted.2 hs)
  obtain ⟨t, ht, hts⟩ := List.mem_map.1 listed
  obtain ⟨r, hr, hrt⟩ := exists_of_forall₂ (R := fun t r => Row.Reads r t) hl.flip (mem_sorted.1 ht)
  exact ⟨r, hr, t, hrt, hts.symm⟩

/-- Every row is read as a semester of the plan. -/
theorem semester (h : InStep rows p) {r : Row} (hr : r ∈ rows) :
    ∃ t, r.Reads t ∧ ∃ s ∈ p.semesters, s.canonical = t.canonical := by
  obtain ⟨l, hl, -, -, same⟩ := h
  obtain ⟨t, ht, hrt⟩ := exists_of_forall₂ hl hr
  have listed : t.canonical ∈ (Plan.sorted p.semesters).map Semester.canonical :=
    same ▸ List.mem_map_of_mem (mem_sorted.2 ht)
  obtain ⟨s, hs, hst⟩ := List.mem_map.1 listed
  exact ⟨t, hrt, s, mem_sorted.1 hs, hst⟩

end InStep

theorem reads_dropFrom {ids : List Json} {n : Nat} (hl : List.Forall₂ Row.Reads rows l)
    (hd : dropFrom ids rows = (rows', .ok n)) (hids : ∀ s ∈ l, ∀ e ∈ s.courses, e.id.isIn ids = false) :
    List.Forall₂ Row.Reads rows' l := by
  have dropped := dropFrom_eq_ok hd
  clear hd
  induction dropped generalizing l with
  | nil => exact hl
  | cons drop _ ih =>
    cases hl with
    | cons hr hl =>
      obtain ⟨n, drop⟩ := drop
      obtain ⟨hs, hids⟩ := List.forall_mem_cons.1 hids
      exact .cons (hr.dropCourses drop hs) (ih hl hids)

/-- Deleting courses that the plan does not have keeps rows in step. -/
theorem InStep.deleted (h : InStep rows p) {ids : List Json} {n : Nat} (hd : dropFrom ids rows = (rows', .ok n))
    (hids : ∀ e ∈ p.entries, e.id.isIn ids = false) : InStep rows' p := by
  obtain ⟨l, hl, hload, hdated, same⟩ := h
  refine ⟨l, reads_dropFrom hl hd fun t ht e he => ?_, hload, hdated, same⟩
  -- the plan has a course of this id
  have listed : t.canonical ∈ (Plan.sorted p.semesters).map Semester.canonical :=
    same ▸ List.mem_map_of_mem (mem_sorted.2 ht)
  obtain ⟨s, hs, hst⟩ := List.mem_map.1 listed
  obtain ⟨e', he', same⟩ := Semester.course_of_canonical hst.symm he
  rw [← Json.isIn_congr _ same]
  exact hids e' (mem_entries.2 ⟨s, mem_sorted.1 hs, he'⟩)

/-- A row that is read as one of the semesters takes the place of its row. -/
theorem reads_putRow {r : Row} {t : Semester} (hr : r.Reads t) (hl : List.Forall₂ Row.Reads rows l)
    (hn : (l.map (·.id)).Nodup) (ht : ∃ u ∈ l, u.canonical = t.canonical) :
    ∃ l', List.Forall₂ Row.Reads (putRow r rows) l' ∧ l'.map Semester.canonical = l.map Semester.canonical := by
  obtain ⟨u, hu, hut⟩ := ht
  have uid : u.id = t.id := Semester.id_eq_of_canonical hut
  induction hl with
  | nil => cases hu
  | @cons y s rows l hy hl ih =>
    obtain ⟨hs, hn⟩ := List.nodup_cons.1 hn
    unfold putRow
    by_cases hid : y.id = r.id
    · -- this is the row of the semester
      have same : u = s := by
        refine (List.mem_cons.1 hu).resolve_right fun hul => hs ?_
        have sid : s.id = u.id := hy.id_eq.symm.trans (hid.trans (hr.id_eq.trans uid.symm))
        exact List.mem_map.2 ⟨u, hul, sid.symm⟩
      rw [if_pos (beq_iff_eq.2 hid)]
      exact ⟨t :: l, .cons hr hl, by rw [List.map_cons, List.map_cons, ← hut, same]⟩
    · have hul : u ∈ l := by
        refine (List.mem_cons.1 hu).resolve_left fun hus => hid ?_
        rw [hy.id_eq, ← hus, uid, hr.id_eq]
      obtain ⟨l', hl', hsame⟩ := ih hn hul
      rw [if_neg (by simpa using hid)]
      exact ⟨s :: l', .cons hy hl', by rw [List.map_cons, List.map_cons, hsame]⟩

/-- Storing a row that is read as the plan has it keeps rows in step. -/
theorem InStep.stored (h : InStep rows p) (hn : (rows.map (·.id)).Nodup) {r : Row} {s t : Semester} (hr : r.Reads t)
    (hs : s ∈ p.semesters) (hst : s.canonical = t.canonical) : InStep (putRow r rows) p := by
  obtain ⟨l, hl, hload, hd, same⟩ := h
  have listed : s.canonical ∈ (Plan.sorted l).map Semester.canonical := same ▸ List.mem_map_of_mem (mem_sorted.2 hs)
  obtain ⟨u, hu, hus⟩ := List.mem_map.1 listed
  have ids : rows.map (·.id) = l.map (·.id) := map_eq_of_forall₂ hl fun _ _ hr => hr.id_eq
  obtain ⟨l', hl', hsame⟩ := reads_putRow hr hl (ids ▸ hn) ⟨u, mem_sorted.1 hu, hus.trans hst⟩
  refine ⟨l', hl', hload.congr hsame.symm, hd, ?_⟩
  rw [same, ← sorted_canonical, ← sorted_canonical, hsame]

end Archive
end DegreePlan
