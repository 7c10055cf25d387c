import Mathlib.Data.List.Perm.Subperm
import DegreePlan.Proofs.Plan.Validity

/-!
# Loads

A load succeeds just when every record can be read and no code and no id comes twice, and then the
plan is valid. Records of different semesters are loaded one by one, in their order.
-/

namespace DegreePlan

/-! ## One record -/

namespace Entry

/-- What a course is like that was read from a record. -/
structure Plain (e : Entry) : Prop where
  code : ∃ s, e.code = .str s
  title : ∃ s, e.title = .str s
  semester : ∃ n, e.semester = .int n

theorem ofJson_eq_ok {data : Json} {e : Entry} (h : ofJson data = .ok e) : e.Plain := by
  simp only [ofJson, make, bind_eq_ok, pure_eq_ok] at h
  obtain ⟨fields, -, id, -, code, -, credits, -, semester, -, c, -, status, -, grade, -, rfl⟩ := h
  exact ⟨⟨_, rfl⟩, ⟨_, rfl⟩, ⟨_, rfl⟩⟩

end Entry

namespace Semester

/-- What a semester is like that was read from a record. -/
structure Plain (s : Semester) : Prop where
  term : (Term.ofId? s.id).isSome
  maxCredits : ∃ n : Int, s.maxCredits = .int n
  held : ∀ e ∈ s.courses, e.semester = .int s.id
  courses : ∀ e ∈ s.courses, e.Plain

theorem strayIn_none {id : Int} {es : List Entry} (h : strayIn id es = none) :
    ∀ e ∈ es, e.semester.same (.int id) = true := by
  simpa [strayIn] using h

theorem ofId_eq_ok {id : Int} {t : Term} : Term.ofId (.int id) = .ok t ↔ Term.ofId? id = some t := by
  simp only [Term.ofId, Json.toInteger, ok_bind]
  split <;> simp_all

/-- What a record holds that is read as a semester. -/
theorem ofJson_parts {data : Json} {s : Semester} (h : ofJson data = .ok s) :
    ∃ fields raw records t, data.fields? = some fields ∧ fields.lookup "id" = some raw ∧
      raw.toInteger = .ok s.id ∧
      Term.ofId? s.id = some t ∧
      (if (Json.fieldOf fields "courses").isBlank then .ok [] else (Json.fieldOf fields "courses").parts) =
      .ok records ∧
      records.mapM Entry.ofJson = .ok s.courses ∧ strayIn s.id s.courses = none ∧
      ((fields.lookup "year").getD (.int t.year)).toInteger = .ok s.term.year ∧
      s.term.season = ((fields.lookup "season").getD (.str t.season.text)).asText ∧ ∃ n :
    Int, s.maxCredits = .int n := by
  simp only [ofJson, bind_eq_ok, ofId_eq_ok, Json.record, Json.need] at h
  obtain ⟨fields, hf, raw, hraw, id, hid, t, ht, h⟩ := h
  have hfields : data.fields? = some fields := by split at hf <;> cases hf; assumption
  have hraw : fields.lookup "id" = some raw := by split at hraw <;> cases hraw; assumption
  split at h
  all_goals
    next blank =>
    simp only [bind_eq_ok] at h
    obtain ⟨records, hrecords, es, hes, h⟩ := h
    cases hs : strayIn id es with
    | some stray => simp [hs, bind_eq_ok] at h
    | none =>
      simp only [hs, bind_eq_ok, pure_eq_ok] at h
      obtain ⟨year, hyear, maxCredits, -, rfl⟩ := h
      exact ⟨fields, raw, records, t, hfields, hraw, hid, ht, by simpa [blank] using hrecords, hes, hs,
        hyear, rfl, _, rfl⟩

theorem ofJson_eq_ok {data : Json} {s : Semester} (h : ofJson data = .ok s) : s.Plain := by
  obtain ⟨fields, raw, records, t, -, -, -, ht, -, hes, hs, -, -, hmax⟩ := ofJson_parts h
  have plain : ∀ e ∈ s.courses, e.Plain := fun e he => by
    obtain ⟨v, -, hv⟩ := mem_of_mapM hes he
    exact Entry.ofJson_eq_ok hv
  refine ⟨by rw [ht]; rfl, hmax, fun e he => ?_, plain⟩
  obtain ⟨n, hn⟩ := (plain e he).semester
  have := strayIn_none hs e he
  rw [hn, Json.same_int_int] at this
  rw [hn, this]

end Semester

/-! ## Codes and ids -/

namespace Plan.Reading

/-- No code and no id was seen twice. -/
structure Distinct (r : Reading) : Prop where
  codes : (r.codes.map Json.canonical).Nodup
  ids : (r.ids.map Json.canonical).Nodup

/-- What was seen after some courses were noted. -/
def noted (r : Reading) (es : List Entry) : Reading :=
  { r with codes := r.codes ++ es.map (·.code), ids := r.ids ++ es.map (·.id) }

theorem noted_noted (r : Reading) (es fs : List Entry) : (r.noted es).noted fs = r.noted (es ++ fs) := by
  simp [noted]

theorem noteCourse_eq_ok {r q : Reading} {e : Entry} :
    r.noteCourse e = .ok q ↔
      e.code.isIn r.codes = false ∧ e.id.isKey = true ∧ e.id.isIn r.ids = false ∧ q = r.noted [e] := by
  unfold noteCourse
  cases hc : e.code.isIn r.codes
  · cases hi : e.id.isIn r.ids <;> simp [bind_eq_ok, Json.checkKey_eq_ok, noted, eq_comm (a := q)]
  · simp [bind_eq_ok]

theorem distinct_noted_singleton {r : Reading} (h : r.Distinct) {e : Entry} :
    (r.noted [e]).Distinct ↔ e.code.isIn r.codes = false ∧ e.id.isIn r.ids = false := by
  have snoc : ∀ {l : List Json} {v : Json}, (l.map Json.canonical).Nodup →
      (((l ++ [v]).map Json.canonical).Nodup ↔ v.isIn l = false) := by
    intro l v hl
    rw [List.map_append, List.nodup_append_comm, List.map_singleton, List.singleton_append, List.nodup_cons,
      Json.isIn_eq_false]
    exact and_iff_left hl
  constructor
  · exact fun hd => ⟨(snoc h.codes).1 hd.codes, (snoc h.ids).1 hd.ids⟩
  · exact fun hd => ⟨(snoc h.codes).2 hd.1, (snoc h.ids).2 hd.2⟩

theorem Distinct.of_noted {r : Reading} {es : List Entry} (h : (r.noted es).Distinct) : r.Distinct := by
  obtain ⟨hc, hi⟩ := h
  simp only [noted, List.map_append] at hc hi
  exact ⟨hc.of_append_left, hi.of_append_left⟩

/-- Courses are noted just when none of them repeats a code or an id, and all their ids are keys. -/
theorem noteCourses_eq_ok {r q : Reading} {es : List Entry} (h : r.Distinct) :
    es.foldlM noteCourse r = .ok q ↔ (r.noted es).Distinct ∧ (∀ e ∈ es, e.id.isKey = true) ∧
    q = r.noted es := by
  induction es generalizing r with
  | nil => simp [noted, h, eq_comm (a := q)]
  | cons e es ih =>
    simp only [List.foldlM_cons, bind_eq_ok, noteCourse_eq_ok, List.forall_mem_cons]
    have cons : r.noted (e :: es) = (r.noted [e]).noted es := (noted_noted r [e] es).symm
    constructor
    · rintro ⟨_, ⟨hc, hk, hi, rfl⟩, hq⟩
      obtain ⟨hd, hks, rfl⟩ := (ih ((distinct_noted_singleton h).2 ⟨hc, hi⟩)).1 hq
      exact ⟨cons ▸ hd, ⟨hk, hks⟩, cons.symm⟩
    · rintro ⟨hd, ⟨hk, hks⟩, rfl⟩
      rw [cons] at hd
      obtain ⟨hc, hi⟩ := (distinct_noted_singleton h).1 hd.of_noted
      exact ⟨_, ⟨hc, hk, hi, rfl⟩, (ih hd.of_noted).2 ⟨hd, hks, cons⟩⟩

end Plan.Reading

/-! ## Many records -/

namespace Plan

theorem mem_putSemester {s t : Semester} {l : List Semester} (h : t ∈ putSemester s l) : t = s ∨ t ∈ l := by
  induction l with
  | nil => exact .inl (List.mem_singleton.1 h)
  | cons u l ih =>
    unfold putSemester at h
    split at h
    · exact (List.mem_cons.1 h).imp_right (List.mem_cons_of_mem u)
    · rcases List.mem_cons.1 h with rfl | h
      · exact .inr (by simp)
      · exact (ih h).imp_right (List.mem_cons_of_mem u)

theorem putSemester_new {s : Semester} {l : List Semester} (h : ∀ t ∈ l, t.id ≠ s.id) :
    putSemester s l = l ++ [s] := by
  induction l with
  | nil => rfl
  | cons u l ih =>
    obtain ⟨hu, hl⟩ := List.forall_mem_cons.1 h
    simp [putSemester, hu, ih hl]

theorem nodup_putSemester {s : Semester} {l : List Semester} (h : (l.map (·.id)).Nodup) :
    ((putSemester s l).map (·.id)).Nodup := by
  induction l with
  | nil => simp [putSemester]
  | cons u l ih =>
    rw [List.map_cons, List.nodup_cons] at h
    unfold putSemester
    split
    · next hu => rw [List.map_cons, List.nodup_cons, ← beq_iff_eq.1 hu]; exact h
    · next hu =>
      rw [List.map_cons, List.nodup_cons]
      refine ⟨fun hm => ?_, ih h.2⟩
      obtain ⟨t, ht, hid⟩ := List.mem_map.1 hm
      rcases mem_putSemester ht with rfl | ht
      · exact hu (beq_iff_eq.2 hid.symm)
      · exact h.1 (List.mem_map.2 ⟨t, ht, hid⟩)

/-- The courses of a semester that is replaced are gone. -/
theorem courses_putSemester (s : Semester) (l : List Semester) :
    ((putSemester s l).flatMap (·.courses)).Subperm (s.courses ++ l.flatMap (·.courses)) := by
  induction l with
  | nil => simpa [putSemester] using List.Subperm.refl s.courses
  | cons u l ih =>
    unfold putSemester
    split
    · exact ((List.Sublist.refl s.courses).append (List.sublist_append_right _ _)).subperm
    · simp only [List.flatMap_cons]
      exact ((List.subperm_append_left u.courses).2 ih).trans (List.perm_append_comm_assoc _ _ _).subperm

namespace Reading

/-- The semesters that were read are plain, and their courses were all noted. -/
structure Sound (r : Reading) : Prop where
  distinct : r.Distinct
  ids : (r.semesters.map (·.id)).Nodup
  courses : ∃ es, r.codes = es.map (·.code) ∧ r.ids = es.map (·.id) ∧
    (r.semesters.flatMap (·.courses)).Subperm es
  plain : ∀ s ∈ r.semesters, s.Plain
  isKey : ∀ s ∈ r.semesters, ∀ e ∈ s.courses, e.id.isKey = true

theorem sound_empty : ({} : Reading).Sound :=
  ⟨⟨List.nodup_nil, List.nodup_nil⟩, List.nodup_nil, ⟨[], rfl, rfl, .refl _⟩, nofun, nofun⟩

theorem add_eq_ok {r q : Reading} {data : Json} (h : r.Distinct) :
    r.add data = .ok q ↔ ∃ s, Semester.ofJson data = .ok s ∧ (r.noted s.courses).Distinct ∧
      (∀ e ∈ s.courses, e.id.isKey = true) ∧
      q = { r.noted s.courses with semesters := putSemester s r.semesters } := by
  simp only [add, bind_eq_ok, pure_eq_ok]
  constructor
  · rintro ⟨s, hs, r', hr, rfl⟩
    obtain ⟨hd, hk, rfl⟩ := (noteCourses_eq_ok h).1 hr
    exact ⟨s, hs, hd, hk, rfl⟩
  · rintro ⟨s, hs, hd, hk, rfl⟩
    exact ⟨s, hs, _, (noteCourses_eq_ok h).2 ⟨hd, hk, rfl⟩, rfl⟩

/-- A record keeps what was read sound. -/
theorem Sound.add {r q : Reading} {data : Json} (h : r.Sound) (hq : r.add data = .ok q) : q.Sound := by
  obtain ⟨s, hs, hd, hk, rfl⟩ := (add_eq_ok h.distinct).1 hq
  obtain ⟨es, hc, hi, hes⟩ := h.courses
  refine ⟨⟨hd.codes, hd.ids⟩, nodup_putSemester h.ids, ⟨es ++ s.courses, ?_, ?_, ?_⟩,
    fun t ht => ?_, fun t ht => ?_⟩
  · simp [noted, hc]
  · simp [noted, hi]
  · exact (courses_putSemester s r.semesters).trans
      (((List.subperm_append_left s.courses).2 hes).trans List.perm_append_comm.subperm)
  · exact (mem_putSemester ht).elim (fun e => e ▸ Semester.ofJson_eq_ok hs) (h.plain t)
  · exact (mem_putSemester ht).elim (fun e => e ▸ hk) (h.isKey t)

end Reading

namespace Reading

/-- Records of semesters with ids of their own are read one by one. -/
theorem foldl_add_eq_ok {r q : Reading} {records : List Json} {l : List Semester} (hr : r.Distinct)
    (hl : List.Forall₂ (fun v s => Semester.ofJson v = .ok s) records l)
    (ids : ((r.semesters ++ l).map (·.id)).Nodup) :
    records.foldlM add r = .ok q ↔ (r.noted (l.flatMap (·.courses))).Distinct ∧
      (∀ e ∈ l.flatMap (·.courses), e.id.isKey = true) ∧
      q = { r.noted (l.flatMap (·.courses)) with semesters := r.semesters ++ l } := by
  induction hl generalizing r with
  | nil => simp [noted, hr, eq_comm (a := q)]
  | @cons v s records l hv hl ih =>
    have new : putSemester s r.semesters = r.semesters ++ [s] := putSemester_new fun t ht hid => by
      rw [List.map_append, List.nodup_append] at ids
      exact ids.2.2 t.id (List.mem_map_of_mem ht) s.id (by simp) hid
    let next : Reading := { r.noted s.courses with semesters := r.semesters ++ [s] }
    have after : { next.noted (l.flatMap (·.courses)) with semesters := next.semesters ++ l } =
        { r.noted ((s :: l).flatMap (·.courses)) with semesters := r.semesters ++ s :: l } := by
      simp [next, noted]
    have rest (hn : next.Distinct) := ih (r := next) hn (by simpa [next] using ids)
    rw [after] at rest
    have all : (next.noted (l.flatMap (·.courses))).Distinct ↔
        (r.noted ((s :: l).flatMap (·.courses))).Distinct := by
      rw [List.flatMap_cons, ← noted_noted]
      exact ⟨fun h => ⟨h.codes, h.ids⟩, fun h => ⟨h.codes, h.ids⟩⟩
    rw [all] at rest
    have first (q : Reading) :
        r.add v = .ok q ↔ (r.noted s.courses).Distinct ∧ (∀ e ∈ s.courses, e.id.isKey = true) ∧ q = next := by
      simp [add_eq_ok hr, hv, new, next]
    simp only [List.foldlM_cons, bind_eq_ok, first]
    constructor
    · rintro ⟨_, ⟨hd, hk, rfl⟩, hq⟩
      obtain ⟨hd', hk', rfl⟩ := (rest ⟨hd.codes, hd.ids⟩).1 hq
      exact ⟨hd', by rw [List.flatMap_cons, List.forall_mem_append]; exact ⟨hk, hk'⟩, rfl⟩
    · rintro ⟨hd, hk, rfl⟩
      have hs : (r.noted s.courses).Distinct := by
        rw [List.flatMap_cons, ← noted_noted] at hd
        exact hd.of_noted
      rw [List.flatMap_cons, List.forall_mem_append] at hk
      exact ⟨next, ⟨hs, hk.1, rfl⟩, (rest ⟨hs.codes, hs.ids⟩).2 ⟨hd, hk.2, rfl⟩⟩

theorem foldl_add_read {r q : Reading} {records : List Json} (h : records.foldlM add r = .ok q) :
    ∃ l, List.Forall₂ (fun v s => Semester.ofJson v = .ok s) records l := by
  induction records generalizing r with
  | nil => exact ⟨[], .nil⟩
  | cons v records ih =>
    simp only [List.foldlM_cons, bind_eq_ok] at h
    obtain ⟨next, hn, h⟩ := h
    simp only [add, bind_eq_ok] at hn
    obtain ⟨s, hs, -⟩ := hn
    obtain ⟨l, hl⟩ := ih h
    exact ⟨s :: l, .cons hs hl⟩

end Reading

/-- Every record of a document that is loaded can be read. -/
theorem load_read {p q : Plan} {document : Json} (h : p.load document = .ok q) :
    ∃ records l, recordsOf document = .ok records ∧
      List.Forall₂ (fun v s => Semester.ofJson v = .ok s) records l := by
  simp only [load, bind_eq_ok] at h
  obtain ⟨records, hr, r, hf, -⟩ := h
  obtain ⟨l, hl⟩ := Reading.foldl_add_read hf
  exact ⟨records, l, hr, hl⟩

/-- Records of semesters with ids of their own are loaded just when no code and no id of a course comes
twice, and they become the plan in their order. -/
theorem load_records {p q : Plan} {document : Json} {records : List Json} {l : List Semester}
    (hr : recordsOf document = .ok records) (hl : List.Forall₂ (fun v s => Semester.ofJson v = .ok s) records l)
    (ids : (l.map (·.id)).Nodup) :
    p.load document = .ok q ↔ ((l.flatMap (·.courses)).map (·.code.canonical)).Nodup ∧
      ((l.flatMap (·.courses)).map (·.id.canonical)).Nodup ∧
      (∀ e ∈ l.flatMap (·.courses), e.id.isKey = true) ∧
      q = { p with semesters := l }.touch := by
  have read (r : Reading) := Reading.foldl_add_eq_ok (q := r) Reading.sound_empty.distinct hl (by simpa using ids)
  have distinct : (({} : Reading).noted (l.flatMap (·.courses))).Distinct ↔
      ((l.flatMap (·.courses)).map (·.code.canonical)).Nodup ∧
      ((l.flatMap (·.courses)).map (·.id.canonical)).Nodup := by
    have canonicals (f : Entry → Json) (es : List Entry) :
        (es.map f).map Json.canonical = es.map fun e => (f e).canonical :=
      List.map_map
    rw [← canonicals (·.code), ← canonicals (·.id)]
    exact ⟨fun h => ⟨h.codes, h.ids⟩, fun h => ⟨h.1, h.2⟩⟩
  simp only [load, hr, ok_bind, bind_eq_ok, pure_eq_ok, read, distinct]
  constructor
  · rintro ⟨r, ⟨⟨hc, hi⟩, hk, rfl⟩, rfl⟩
    exact ⟨hc, hi, hk, rfl⟩
  · rintro ⟨hc, hi, hk, rfl⟩
    exact ⟨_, ⟨⟨hc, hi⟩, hk, rfl⟩, rfl⟩

/-- What a load gives: a valid plan of plain semesters, whose course ids are keys and no two of them the same. -/
theorem load_eq_ok {p q : Plan} {document : Json} (h : p.load document = .ok q) :
    q.Valid ∧ q.owner = p.owner ∧ (∀ s ∈ q.semesters, s.Plain) ∧ (∀ e ∈ q.entries, e.id.isKey = true) ∧
      Separate q := by
  simp only [load, bind_eq_ok, pure_eq_ok] at h
  obtain ⟨records, -, r, hr, rfl⟩ := h
  have hs : r.Sound := foldlM_keeps Reading.Sound Reading.sound_empty (fun _ _ _ _ h hq => h.add hq) hr
  obtain ⟨es, hc, hi, hes⟩ := hs.courses
  obtain ⟨fs, hf, hl⟩ := hes
  have hcodes := hs.distinct.codes
  have hids := hs.distinct.ids
  rw [hc, List.map_map] at hcodes
  rw [hi, List.map_map] at hids
  have separate : Separate { p with semesters := r.semesters } := (hf.map _).nodup_iff.1 ((hl.map _).nodup hids)
  refine ⟨Valid.touch ⟨hs.ids, ?_, ?_, fun s hm e he => ?_⟩, rfl, hs.plain, fun e he => ?_, separate⟩
  · exact (hf.map _).nodup_iff.1 ((hl.map _).nodup hcodes)
  · exact separate.keys
  · rw [(hs.plain s hm).held e he]; exact Json.same_refl _
  · obtain ⟨s, hm, he⟩ := mem_entries.1 he
    exact hs.isKey s hm e he

/-- A document that says nothing is loaded as the empty plan if it is loaded at all. -/
theorem load_blank {p q : Plan} {document : Json} (hb : document.isBlank = true) (h : p.load document = .ok q) :
    q.semesters = [] := by
  have empty : recordsOf document = .ok [] → q.semesters = [] := by
    intro hr
    simp only [load, hr, ok_bind, List.foldlM_nil, pure_eq_ok, bind_eq_ok] at h
    obtain ⟨_, rfl, rfl⟩ := h
    rfl
  cases document with
  | null | bool | int | real => cases h
  | str s => exact empty (by simp_all [Json.isBlank, recordsOf, Json.parts])
  | arr items => exact empty (by simp_all [Json.isBlank, recordsOf, Json.parts])
  | obj fields => exact empty (by simp_all [Json.isBlank, recordsOf])

theorem importText_eq_ok {p q : Plan} {data : Json} {accepted : Bool} {warnings : List String}
    (h : p.importText data = .ok (accepted, warnings, q)) : q = p ∨ ∃ semesters, p.load semesters = .ok q := by
  unfold importText at h
  split at h
  · cases h; exact .inl rfl
  · split at h
    · cases h; exact .inl rfl
    · split at h
      · next hq => cases h; exact .inr ⟨_, hq⟩
      · split at h <;> cases h
        exact .inl rfl

end Plan
end DegreePlan
