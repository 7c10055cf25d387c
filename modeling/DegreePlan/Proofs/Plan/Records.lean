import DegreePlan.Proofs.Plan.Load

/-!
# Records of semesters

What a load makes of the records that it reads. Of several records of one semester the last one counts, so the
courses of the others are lost, and only these.
-/

namespace DegreePlan

/-! ## The last of a key -/

section Latest

variable {α β κ : Type} [BEq κ] {key : α → κ}

/-- The last item with this key, if there is one. -/
def latest (key : α → κ) (k : κ) (l : List α) : Option α := (l.filter (key · == k)).getLast?

theorem latest_sublist (key : α → κ) (k : κ) (l : List α) :
    (latest key k l).toList.Sublist (l.filter (key · == k)) := by
  cases h : latest key k l with
  | none => exact List.nil_sublist _
  | some x => exact List.singleton_sublist.2 (List.mem_of_getLast? h)

variable [LawfulBEq κ]

theorem latest_cons (x : α) (l : List α) (k : κ) :
    latest key k (x :: l) = (latest key k l).or (if key x == k then some x else none) := by
  by_cases h : key x = k
  · simp [latest, h, List.getLast?_cons, Option.or_some]
  · simp [latest, h]

theorem mem_of_latest {k : κ} {l : List α} {x : α} (h : latest key k l = some x) : x ∈ l ∧ key x = k := by
  simpa using List.mem_filter.1 (List.mem_of_getLast? h)

theorem latest_eq_none {k : κ} {l : List α} : latest key k l = none ↔ ∀ x ∈ l, key x ≠ k := by
  simp [latest]

/-- Lists of related items with the same keys have related last items. -/
theorem latest_related {R : α → β → Prop} {key' : β → κ} (hkey : ∀ x y, R x y → key x = key' y)
    {l : List α} {m : List β} (h : List.Forall₂ R l m) (k : κ) :
    Option.Rel R (latest key k l) (latest key' k m) := by
  induction h with
  | nil => exact .none
  | @cons x y l m hxy _ ih =>
    rw [latest_cons, latest_cons, ← hkey x y hxy]
    generalize latest key k l = a, latest key' k m = b at ih
    cases ih with
    | some hab => exact .some hab
    | none =>
      by_cases hk : key x = k
      · simpa [hk] using hxy
      · simp [hk]

/-- The last items of all keys bring all that the items bring just when no item before the last of its key brings
anything. -/
theorem flatMap_latest_iff (g : α → List β) (l : List α) :
    (∀ k, (latest key k l).toList.flatMap g = (l.filter (key · == k)).flatMap g) ↔
      l.Pairwise fun x y => key x = key y → g x = [] := by
  induction l with
  | nil => simp [latest]
  | cons x l ih =>
    -- a new first item counts only where its key does not come again
    have step (k : κ) : (latest key k (x :: l)).toList.flatMap g = ((x :: l).filter (key · == k)).flatMap g ↔
        (latest key k l).toList.flatMap g = (l.filter (key · == k)).flatMap g ∧
          (key x = k → (latest key k l).isSome → g x = []) := by
      by_cases hk : key x = k
      · cases hl : latest key k l with
        | none =>
          have none : l.filter (key · == k) = [] := by simpa [latest] using hl
          simp [latest_cons, hl, hk, none]
        | some y =>
          have within := ((latest_sublist key k l).flatMap g).length_le
          simp only [latest_cons, hl, hk, Option.some_or, Option.toList_some, List.filter_cons, BEq.rfl, ↓reduceIte,
            List.flatMap_cons, List.flatMap_nil, List.append_nil, Option.isSome_some, forall_const] at within ⊢
          constructor
          · intro h
            have none : g x = [] := by
              have := congrArg List.length h
              rw [List.length_append] at this
              exact List.eq_nil_of_length_eq_zero (by omega)
            exact ⟨by rw [h, none, List.nil_append], none⟩
          · rintro ⟨h, none⟩
            rw [none, List.nil_append]
            exact h
      · simp [latest_cons, hk]
    rw [List.pairwise_cons, ← ih]
    simp only [step, forall_and]
    rw [and_comm]
    refine and_congr_left fun _ => ⟨fun h y hy hxy => h _ hxy ?_, fun h k hk hs => ?_⟩
    · rw [Option.isSome_iff_ne_none, Ne, latest_eq_none]
      exact fun hn => hn y hy rfl
    · obtain ⟨y, hy⟩ := Option.isSome_iff_exists.1 hs
      obtain ⟨hm, hk'⟩ := mem_of_latest hy
      exact h y hm (hk.trans hk'.symm)

end Latest

/-! ## What a record says -/

/-- The semester that the record of a course claims. -/
def Entry.claim? (data : Json) : Option Int :=
  let fields := data.fields?.getD []
  ((fields.lookup "semester_id").getD (Json.fieldOf fields "semesterId")).toInteger.toOption

theorem Entry.claim?_of_ofJson {data : Json} {e : Entry} (h : ofJson data = .ok e) :
    (claim? data).map Json.int = some e.semester := by
  simp only [ofJson, make, bind_eq_ok, pure_eq_ok, Json.record] at h
  obtain ⟨fields, hf, id, -, code, -, credits, -, semester, hs, c, -, status, -, grade, -, rfl⟩ := h
  split at hf <;> cases hf
  next hd => simp [claim?, hd, hs, Except.toOption]

namespace Semester

/-- The id in the record of a semester. -/
def idIn? (data : Json) : Option Int := ((data.fields?.getD []).lookup "id").bind fun v => v.toInteger.toOption

/-- The records of the courses in the record of a semester. -/
def coursesIn (data : Json) : List Json :=
  let courses := Json.fieldOf (data.fields?.getD []) "courses"
  if courses.isBlank then [] else courses.parts.toOption.getD []

/-- What the record of a semester says of its year and its season, where it says anything. -/
def termIn (data : Json) (t : Term) : Except Fault TermName := do
  let fields := data.fields?.getD []
  let year ← ((fields.lookup "year").getD (.int t.year)).toInteger
  return { season := ((fields.lookup "season").getD (.str t.season.text)).asText, year }

/-- A record is read as the semester of its id, with its courses. -/
structure Reads (data : Json) (s : Semester) : Prop where
  id : idIn? data = some s.id
  term : ∃ t, Term.ofId? s.id = some t ∧ termIn data t = .ok s.term
  courses : List.Forall₂ (fun c e => Entry.ofJson c = .ok e) (coursesIn data) s.courses
  claims : ∀ c ∈ coursesIn data, Entry.claim? c = some s.id

theorem reads_of_ofJson {data : Json} {s : Semester} (h : ofJson data = .ok s) : Reads data s := by
  obtain ⟨fields, raw, records, t, hf, hraw, hid, ht, hrecords, hes, -, hyear, hseason, -⟩ := ofJson_parts h
  have listed : coursesIn data = records := by
    simp only [coursesIn, hf, Option.getD_some]
    split at hrecords
    · next blank => cases hrecords; rw [if_pos blank]
    · next there => rw [if_neg there, hrecords]; rfl
  refine ⟨by simp [idIn?, hf, hraw, hid, Except.toOption], ⟨t, ht, ?_⟩, listed ▸ mapM_eq_ok.1 hes,
    fun c hc => ?_⟩
  · simp only [termIn, hf, Option.getD_some, hyear, ok_bind, ← hseason]
    rfl
  · obtain ⟨e, he, hc⟩ := ok_of_mapM hes (listed ▸ hc)
    have claim := Entry.claim?_of_ofJson hc
    rw [(ofJson_eq_ok h).held e he] at claim
    simpa using claim

end Semester

/-! ## What is loaded -/

namespace Plan

theorem find?_putSemester (s : Semester) (l : List Semester) (i : Int) :
    (putSemester s l).find? (·.id == i) = if s.id = i then some s else l.find? (·.id == i) := by
  induction l with
  | nil => by_cases h : s.id = i <;> simp [putSemester, h]
  | cons t l ih =>
    unfold putSemester
    by_cases ht : t.id = s.id <;> by_cases hs : s.id = i <;> simp_all [List.find?_cons]

/-- After some semesters were put in place, the last of an id is found under it. -/
theorem find?_putSemesters (l kept : List Semester) (i : Int) :
    (l.foldl (fun kept s => putSemester s kept) kept).find? (·.id == i) =
    (latest (·.id) i l).or (kept.find? (·.id == i)) := by
  induction l generalizing kept with
  | nil => rfl
  | cons s l ih =>
    rw [List.foldl_cons, ih, find?_putSemester, latest_cons, Option.or_assoc]
    by_cases h : s.id = i <;> simp [h]

theorem Reading.semesters_of_foldlM {r q : Reading} {records : List Json} {l : List Semester}
    (hl : List.Forall₂ (fun v s => Semester.ofJson v = .ok s) records l) (h : records.foldlM Reading.add r = .ok q) :
    q.semesters = l.foldl (fun kept s => putSemester s kept) r.semesters := by
  induction hl generalizing r with
  | nil => rw [← pure_eq_ok.1 h]; rfl
  | @cons v s records l hv _ ih =>
    simp only [List.foldlM_cons, bind_eq_ok] at h
    obtain ⟨next, hn, h⟩ := h
    simp only [Reading.add, hv, ok_bind, bind_eq_ok, pure_eq_ok] at hn
    obtain ⟨noted, hnoted, rfl⟩ := hn
    have same : noted.semesters = r.semesters :=
      foldlM_keeps (fun x : Reading => x.semesters = r.semesters) rfl (fun x e y _ hx hy => by
        obtain ⟨-, -, -, rfl⟩ := Reading.noteCourse_eq_ok.1 hy
        exact hx) hnoted
    rw [ih h, List.foldl_cons, same]

theorem semester?_int (p : Plan) (i : Int) : p.semester? (.int i) = p.semesters.find? (·.id == i) := by
  unfold semester?
  congr 1
  funext s
  rw [Bool.eq_iff_iff, Json.same_int_int, beq_iff_eq, eq_comm]

/-- The last record of each semester is loaded. -/
theorem load_latest {p q : Plan} {document : Json} (h : p.load document = .ok q) :
    ∃ records, recordsOf document = .ok records ∧ (∀ v ∈ records, ∃ s, Semester.Reads v s) ∧
      ∀ i, Option.Rel Semester.Reads (latest Semester.idIn? (some i) records) (q.semester? (.int i)) := by
  obtain ⟨records, l, hr, hl⟩ := load_read h
  simp only [load, hr, ok_bind, bind_eq_ok, pure_eq_ok] at h
  obtain ⟨r, hf, rfl⟩ := h
  have reads : List.Forall₂ Semester.Reads records l := hl.imp fun _ _ => Semester.reads_of_ofJson
  refine ⟨records, hr, fun v hv => ?_, fun i => ?_⟩
  · obtain ⟨s, -, hs⟩ := exists_of_forall₂ reads hv
    exact ⟨s, hs⟩
  · have found : r.semesters.find? (·.id == i) = latest (fun s : Semester => some s.id) (some i) l := by
      rw [Reading.semesters_of_foldlM hl hf, find?_putSemesters]
      rw [List.find?_nil, Option.or_none]
      rfl
    rw [semester?_int, touch_semesters, found]
    exact latest_related (fun _ _ h => h.id) reads (some i)

/-- The courses of a semester. -/
def coursesAt (p : Plan) (i : Int) : List Entry := (p.semesters.filter (·.id == i)).flatMap (·.courses)

theorem coursesAt_of_nodup {p : Plan} (h : (p.semesters.map (·.id)).Nodup) (i : Int) :
    p.coursesAt i = (p.semester? (.int i)).toList.flatMap (·.courses) := by
  rw [semester?_int, coursesAt]
  revert h
  induction p.semesters with
  | nil => exact fun _ => rfl
  | cons s l ih =>
    intro h
    obtain ⟨hs, hl⟩ := List.nodup_cons.1 h
    by_cases hi : s.id = i
    · have others : l.filter (·.id == i) = [] := List.filter_eq_nil_iff.2 fun t ht => by
        rw [← hi, beq_iff_eq]
        exact fun same => hs (List.mem_map.2 ⟨t, ht, same⟩)
      simp [hi, others]
    · simpa [hi] using ih hl

/-- Just the courses of the records are in the plan: each in the semester that it claims, in the order in which they
come. -/
def Complete (records : List Json) (q : Plan) : Prop :=
  ∀ i, List.Forall₂ (fun c e => Entry.ofJson c = .ok e)
    ((records.flatMap Semester.coursesIn).filter fun c => Entry.claim? c == some i) (q.coursesAt i)

/-- A load loses no course just when no record with courses is followed by another record of its semester. In any case
the courses of a semester are those of its last record, in their order. -/
theorem load_complete_iff {p q : Plan} {document : Json} (h : p.load document = .ok q) :
    ∃ records, recordsOf document = .ok records ∧
      (∀ i, List.Forall₂ (fun c e => Entry.ofJson c = .ok e)
        ((latest Semester.idIn? (some i) records).toList.flatMap Semester.coursesIn) (q.coursesAt i)) ∧
      (Complete records q ↔ records.Pairwise fun v w => Semester.idIn? v = Semester.idIn? w →
        Semester.coursesIn v = []) := by
  obtain ⟨records, hr, read, loaded⟩ := load_latest h
  have courses (i : Int) : List.Forall₂ (fun c e => Entry.ofJson c = .ok e)
      ((latest Semester.idIn? (some i) records).toList.flatMap Semester.coursesIn) (q.coursesAt i) := by
    rw [coursesAt_of_nodup (load_eq_ok h).1.ids]
    have last := loaded i
    generalize latest Semester.idIn? (some i) records = v, q.semester? (.int i) = s at last
    cases last with
    | none => exact .nil
    | some reads => simpa using reads.courses
  have claimed (i : Int) : (records.flatMap Semester.coursesIn).filter (fun c => Entry.claim? c == some i) =
      (records.filter (Semester.idIn? · == some i)).flatMap Semester.coursesIn := by
    clear hr loaded courses
    induction records with
    | nil => rfl
    | cons v records ih =>
      obtain ⟨⟨s, hs⟩, read⟩ := List.forall_mem_cons.1 read
      rw [List.flatMap_cons, List.filter_append, ih read, List.filter_cons, hs.id]
      by_cases hi : s.id = i
      · have all : (Semester.coursesIn v).filter (fun c => Entry.claim? c == some i) = Semester.coursesIn v :=
          List.filter_eq_self.2 fun c hc => by rw [hs.claims c hc, hi, BEq.rfl]
        simp [hi, all]
      · have none : (Semester.coursesIn v).filter (fun c => Entry.claim? c == some i) = [] :=
          List.filter_eq_nil_iff.2 fun c hc => by simp [hs.claims c hc, hi]
        simp [hi, none]
  refine ⟨records, hr, courses, ?_⟩
  rw [← flatMap_latest_iff]
  constructor
  · intro complete k
    have within := (latest_sublist Semester.idIn? k records).flatMap Semester.coursesIn
    refine within.eq_of_length ?_
    cases k with
    | none =>
      have none : records.filter (Semester.idIn? · == none) = [] := List.filter_eq_nil_iff.2 fun v hv => by
        obtain ⟨s, hs⟩ := read v hv
        simp [hs.id]
      rw [none, latest, none]
      rfl
    | some i => rw [(courses i).length_eq, ← claimed, (complete i).length_eq]
  · intro all i
    rw [claimed, ← all]
    exact courses i

/-- A record without courses is followed by another one of its semester, and no course is lost. -/
theorem load_complete_iff_renewed :
    let course (id : Int) (code : String) (semester : Int) : Json :=
      .obj [("id", .int id), ("code", .str code), ("semester_id", .int semester)]
    let records : List Json := [.obj [("id", .int 202400)],
      .obj [("id", .int 202501), ("courses", .arr [course 1 "CS 1301" 202501])],
      .obj [("id", .str "202400"), ("courses", .arr [course 2 "CS 1331" 202400, course 3 "CS 1332" 202400])]]
    ∃ q, ({ owner := some "user-a" } : Plan).load (.arr records) = .ok q ∧ Complete records q ∧
      (q.coursesAt 202400).length = 2 := by
  intro course records
  obtain ⟨q, hq, length⟩ : ∃ q, ({ owner := some "user-a" } : Plan).load (.arr records) = .ok q ∧
    (q.coursesAt 202400).length = 2 := by
    decide +kernel
  obtain ⟨_, ⟨⟩, -, complete⟩ := load_complete_iff hq
  exact ⟨q, hq, complete.2 (by decide +kernel), length⟩

/-- Of two records of one semester, each with a course, only the second one's course is in the plan. -/
theorem load_loses_course :
    let course (id : Int) (code : String) : Json :=
      .obj [("id", .int id), ("code", .str code), ("semester_id", .int 202400)]
    let records : List Json := [.obj [("id", .int 202400), ("courses", .arr [course 1 "CS 1301"])],
      .obj [("id", .int 202400), ("courses", .arr [course 2 "CS 1331"])]]
    ∃ q, ({ owner := some "user-a" } : Plan).load (.arr records) = .ok q ∧ ¬ Complete records q ∧
      q.entries.map (·.id) = [.int 2] := by
  intro course records
  obtain ⟨q, hq, length, only⟩ : ∃ q, ({ owner := some "user-a" } : Plan).load (.arr records) = .ok q ∧
      (q.coursesAt 202400).length = 1 ∧ q.entries.map (·.id) = [.int 2] := by decide +kernel
  have claimed : ((records.flatMap Semester.coursesIn).filter fun c => Entry.claim? c == some 202400).length = 2 := by
    decide +kernel
  refine ⟨q, hq, fun complete => ?_, only⟩
  have same := (complete 202400).length_eq
  rw [claimed, length] at same
  cases same

end Plan
end DegreePlan
