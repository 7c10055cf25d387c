import DegreePlan.Archive
import DegreePlan.Proofs.Plan.Load

/-!
# Stored semesters

A semester that was stored is read back as it was, except that its courses then name their semester by
number. A row holds a semester if it is read back as this semester; deleting courses that the semester
does not have and storing other semesters keeps this.
-/

namespace DegreePlan

/-! ## Courses -/

theorem Json.toInteger_orElse (n d : Int) : ((int n).orElse (int d)).toInteger = .ok (if n = 0 then d else n) := by
  by_cases h : n = 0 <;> simp [orElse, isBlank, toInteger, h]

@[simp] theorem Json.toInteger_int (n : Int) : (int n).toInteger = .ok n := rfl

@[simp] theorem Json.asText_str (s : String) : (str s).asText = s := rfl

theorem Grade.read_toJson (g : Option Grade) : Grade.read (Grade.toJson g) = .ok g := by
  cases g with
  | none => rfl
  | some g =>
    cases g with
    | letter l => cases l <;> rfl
    | administrative a => cases a <;> rfl

theorem Status.read_text (s : Status) : Status.read (.str s.text) = .ok s := by cases s <;> rfl

namespace Entry

/-- The fields of the record of a course. -/
def fields (e : Entry) : CourseRecord :=
  [("id", e.id), ("code", e.code), ("title", e.title), ("credits", .int e.credits), ("status", .str e.status.text),
    ("grade", Grade.toJson e.grade), ("semester_id", e.semester)]

theorem credits_fields (e : Entry) : CourseRecord.credits e.fields = .ok e.credits := by
  have zero : (if (e.credits : Int) = 0 then 0 else (e.credits : Int)) = e.credits := ite_eq_right_iff.2 Eq.symm
  simp only [CourseRecord.credits, fields, Json.fieldOf, List.lookup_cons, String.reduceBEq, Option.getD_some,
    Json.toInteger_orElse, zero]

theorem isCompleted_fields (e : Entry) : CourseRecord.isCompleted e.fields = (e.status == .completed) := by
  simp only [CourseRecord.isCompleted, fields, Json.fieldOf, List.lookup_cons, String.reduceBEq, Option.getD_some]
  cases e.status <;> rfl

theorem letter?_fields (e : Entry) : CourseRecord.letter? e.fields = e.grade.bind Grade.letter? := by
  simp only [CourseRecord.letter?, fields, Json.fieldOf, List.lookup_cons, String.reduceBEq, Option.getD_some]
  rcases e.grade with _ | ⟨_ | _ | _ | _ | _⟩ | ⟨_ | _ | _ | _ | _⟩ <;> rfl

/-- The course as it is read back: it names its semester by number. -/
def settled (n : Int) (e : Entry) : Entry := { e with semester := .int n }

/-- Code and title are texts. -/
def Textual (e : Entry) : Prop := (∃ s, e.code = .str s) ∧ ∃ s, e.title = .str s

instance (e : Entry) : Decidable e.Textual :=
  decidable_of_iff (e.code.text?.isSome ∧ e.title.text?.isSome) <| by
    unfold Textual
    cases e.code <;> cases e.title <;> simp [Json.text?]

theorem ofJson_fields {e : Entry} {n : Int} (ht : e.Textual) (hs : e.semester.same (.int n) = true) :
    ofJson (.obj e.fields) = .ok (e.settled n) := by
  obtain ⟨⟨code, hc⟩, title, ht⟩ := ht
  have name : (Json.str title).orElse (.str "") = .str title := by
    by_cases h : title = "" <;> simp [Json.orElse, Json.isBlank, h]
  have status : (Json.str e.status.text).orElse (.str "planned") = .str e.status.text := by
    cases e.status <;> rfl
  have credits : readCredits (.int e.credits) = .ok e.credits := by simp [readCredits]
  have zero : (if (e.credits : Int) = 0 then 0 else (e.credits : Int)) = e.credits := by
    split
    · next h => exact h.symm
    · rfl
  simp only [ofJson, fields, Json.record, Json.fields?, Json.need, Json.fieldOf, List.lookup_cons, hc, ht,
    String.reduceBEq, ok_bind, Option.getD_some, Json.toInteger_orElse, name, status, Json.toInteger_of_same hs, zero]
  simp only [make, credits, Json.asText_str, Status.read_text, Grade.read_toJson, ok_bind, settled, pure,
    Except.pure, hc, ht]

/-- A course is the same when it was read back. -/
theorem same_settled {e : Entry} {n : Int} (hs : e.semester.same (.int n) = true) : e.same (e.settled n) = true := by
  simp [same, settled, hs]

/-- A course that is read keeps the id of its record. -/
theorem id_of_ofJson {fields : CourseRecord} {e : Entry} (h : ofJson (.obj fields) = .ok e) :
    CourseRecord.id fields = e.id := by
  simp only [ofJson, make, bind_eq_ok, pure_eq_ok, Json.record, Json.fields?] at h
  obtain ⟨_, hf, id, hid, -, -, -, -, -, -, -, -, -, -, -, -, rfl⟩ := h
  cases hf
  unfold Json.need at hid
  split at hid
  · next v hv => cases hid; simp [CourseRecord.id, Json.fieldOf, hv]
  · cases hid

end Entry

namespace CourseRecord

/-- The records of courses have the sum of credits of these courses. -/
theorem total_fields (es : List Entry) : total (es.map Entry.fields) = .ok (totalCredits es) := by
  have credits : (es.map Entry.fields).mapM credits = .ok (es.map fun e => (e.credits : Int)) := by
    rw [List.mapM_map]
    exact mapM_ok fun e _ => e.credits_fields
  rw [total, credits, ok_bind, pure_eq_ok, List.foldl_map]
  exact List.foldl_hom Nat.cast fun _ _ => rfl

/-- The records of courses have the average of these courses. -/
theorem average_fields (es : List Entry) : average (es.map Entry.fields) = averageOf es := by
  have completed : (es.map Entry.fields).filter isCompleted =
      (es.filter (·.status == .completed)).map Entry.fields := by
    rw [List.filter_map]
    exact congrArg _ (List.filter_congr fun e _ => e.isCompleted_fields)
  have graded : graded (es.map Entry.fields) =
      .ok ((es.filter (·.status == .completed)).map fun e => (e.grade.bind Grade.letter?, (e.credits : Int))) := by
    rw [CourseRecord.graded, completed, List.mapM_map]
    refine mapM_ok fun e _ => ?_
    simp only [e.credits_fields, e.letter?_fields, ok_bind, Function.comp_apply]
    rfl
  rw [average, graded, ok_bind, averageOf]

end CourseRecord

/-! ## Semesters -/

namespace Semester

/-- The semester as it is read back. -/
def settled (s : Semester) : Semester := { s with courses := s.courses.map (·.settled s.id) }

theorem settled_of_ofJson {data : Json} {s : Semester} (h : ofJson data = .ok s) : s.settled = s := by
  have same : s.courses.map (·.settled s.id) = s.courses := by
    refine (List.map_congr_left fun e he => ?_).trans (List.map_id _)
    simp [Entry.settled, ← (ofJson_eq_ok h).held e he]
  rw [settled, same]

/-- The semester with the usual limit of credits if it has none. -/
def limited (s : Semester) : Semester := { s with maxCredits := s.maxCredits.orElse (.int 18) }

/-- A semester that can be read back. -/
structure Readable (s : Semester) : Prop where
  term : (Term.ofId? s.id).isSome
  maxCredits : ∃ n : Int, s.maxCredits = .int n
  textual : ∀ e ∈ s.courses, e.Textual

/-- A semester that is read back as it was stored. -/
structure Storable (s : Semester) : Prop where
  term : (Term.ofId? s.id).isSome
  maxCredits : ∃ n : Int, n ≠ 0 ∧ s.maxCredits = .int n
  textual : ∀ e ∈ s.courses, e.Textual
  held : ∀ e ∈ s.courses, e.semester.same (.int s.id) = true

theorem Storable.readable {s : Semester} (h : s.Storable) : s.Readable :=
  have ⟨n, _, hn⟩ := h.maxCredits
  ⟨h.term, ⟨n, hn⟩, h.textual⟩

theorem Storable.limited {s : Semester} (h : s.Storable) : s.limited = s := by
  obtain ⟨n, hn, hm⟩ := h.maxCredits
  have same : s.maxCredits.orElse (.int 18) = s.maxCredits := by simp [hm, Json.orElse, Json.isBlank, hn]
  rw [Semester.limited, same]

/-- What was read back is stored as it is. -/
theorem Readable.storable {s : Semester} (h : s.Readable) : s.limited.settled.Storable := by
  obtain ⟨n, hn⟩ := h.maxCredits
  refine ⟨h.term, ⟨if n = 0 then 18 else n, ?_, ?_⟩, fun e he => ?_, fun e he => ?_⟩
  · split <;> simp_all
  · by_cases hz : n = 0 <;> simp [Semester.settled, Semester.limited, hn, Json.orElse, Json.isBlank, hz]
  · obtain ⟨c, hc, rfl⟩ := List.mem_map.1 he
    exact h.textual c hc
  · obtain ⟨c, -, rfl⟩ := List.mem_map.1 he
    exact Json.same_refl _

theorem strayIn_eq_none {id : Int} {es : List Entry} :
    strayIn id es = none ↔ ∀ e ∈ es, e.semester.same (.int id) = true := by
  simp [strayIn]

/-- A record is read as the semester of its term and its courses. -/
theorem ofJson_record {fields : List (String × Json)} {id year n : Int} {season : String}
    {records : List Json} {active : Bool} {s : Semester} (hid : fields.lookup "id" = some (.int id))
    (hyear : fields.lookup "year" = some (.int year)) (hseason : fields.lookup "season" = some (.str season))
    (hcourses : fields.lookup "courses" = some (.arr records))
    (hmax : fields.lookup "max_credits" = some (.int n)) (hactive : fields.lookup "is_active" = some (.bool active)) :
    ofJson (.obj fields) = .ok s ↔ (Term.ofId? id).isSome ∧
      ∃ es, records.mapM Entry.ofJson = .ok es ∧ (∀ e ∈ es, e.semester.same (.int id) = true) ∧
        s =
        { id, term := { season, year }, courses := es, maxCredits := .int (if n = 0 then 18 else n),
          isActive := active } := by
  have courses : (if (Json.arr records).isBlank then pure [] else (Json.arr records).parts : Except Fault (List Json)) =
      .ok records := by
    cases h : records <;> simp [Json.isBlank, Json.parts, pure, Except.pure]
  have joined (x y : Except Fault (List Json)) (b : Bool) (k : List Json → Except Fault Semester) :
      (if b = true then x >>= k else y >>= k) = (if b = true then x else y) >>= k := by cases b <;> rfl
  have active' : (!(Json.bool active).isBlank) = active := Bool.not_not active
  simp only [ofJson, Json.record, Json.fields?, Json.need, Json.fieldOf, hid, hyear, hseason, hcourses, hmax, hactive,
    ok_bind, Option.getD_some, Json.toInteger_int, Json.toInteger_orElse, joined, courses, Json.asText_str, active']
  constructor
  · intro h
    simp only [bind_eq_ok, ofId_eq_ok] at h
    obtain ⟨t, ht, es, hes, h⟩ := h
    refine ⟨by rw [ht]; rfl, es, hes, ?_⟩
    cases hs : strayIn id es with
    | some stray => simp [hs, bind_eq_ok] at h
    | none =>
      rw [hs] at h
      exact ⟨strayIn_eq_none.1 hs, (pure_eq_ok.1 h).symm⟩
  · rintro ⟨ht, es, hes, hs, rfl⟩
    obtain ⟨t, ht⟩ := Option.isSome_iff_exists.1 ht
    rw [ofId_eq_ok.2 ht, hes, ok_bind, ok_bind, strayIn_eq_none.2 hs]
    rfl

/-- A row is read as the semester of its term and its courses. -/
theorem ofJson_row {r : Row} {s : Semester} : ofJson r.toJson = .ok s ↔ (Term.ofId? r.id).isSome ∧
    ∃ es, r.courses.mapM (fun c => Entry.ofJson (.obj c)) = .ok es ∧
      (∀ e ∈ es, e.semester.same (.int r.id) = true) ∧
      s = { id := r.id, term := r.term, courses := es,
            maxCredits := .int (if r.maxCredits = 0 then 18 else r.maxCredits), isActive := r.isActive } := by
  rw [Row.toJson, ofJson_record rfl rfl rfl rfl rfl rfl, List.mapM_map]
  rfl

/-- A semester is read back from its record. -/
theorem ofJson_toJson {s : Semester} {json : Json} (h : s.Readable)
    (held : ∀ e ∈ s.courses, e.semester.same (.int s.id) = true) (hj : s.toJson = .ok json) :
    ofJson json = .ok s.limited.settled := by
  obtain ⟨n, hn⟩ := h.maxCredits
  simp only [Semester.toJson, bind_eq_ok, pure_eq_ok] at hj
  obtain ⟨x, -, rfl⟩ := hj
  rw [hn, ofJson_record rfl rfl rfl rfl rfl rfl]
  refine ⟨h.term, s.courses.map (·.settled s.id), ?_, fun e he => ?_, ?_⟩
  · rw [List.mapM_map]
    exact mapM_ok fun e he => Entry.ofJson_fields (h.textual e he) (held e he)
  · obtain ⟨c, -, rfl⟩ := List.mem_map.1 he
    exact Json.same_refl _
  · by_cases hz : n = 0 <;> simp [settled, limited, hn, Json.orElse, Json.isBlank, hz]

end Semester

/-- The plan with the usual limit of credits where a semester has none. -/
def Plan.limited (p : Plan) : Plan := { p with semesters := p.semesters.map Semester.limited }

namespace Row

/-- The row is read back as this semester. -/
def Holds (r : Row) (s : Semester) : Prop := Semester.ofJson r.toJson = .ok s.settled

theorem readCourses_toJson (es : List Entry) :
    readCourses (.arr (es.map Entry.toJson)) = .ok (es.map Entry.fields) := by
  cases es with
  | nil => rfl
  | cons e es =>
    have read : ∀ c ∈ e :: es, (readCourse ∘ Entry.toJson) c = .ok c.fields := fun _ _ => rfl
    exact (List.mapM_map ..).trans (mapM_ok read)

/-- What a semester is stored as: its courses with the totals that it reports. A semester whose season has no name is
refused. -/
theorem ofJson_semester {s : Semester} {json : Json} (hj : s.toJson = .ok json) :
    ∃ gpa, s.average = .ok gpa ∧ ofJson json =
      if s.term.season = "" then .error (.payload .noTerm)
      else do
        let maxCredits ← (s.maxCredits.orElse (.int 18)).toInteger
        return { id := s.id, term := s.term, courses := s.courses.map Entry.fields, total := s.total, gpa, maxCredits
                 isActive := s.isActive } := by
  simp only [Semester.toJson, bind_eq_ok, pure_eq_ok] at hj
  obtain ⟨gpa, average, rfl⟩ := hj
  refine ⟨gpa, average, ?_⟩
  have year : namesYear (.int s.term.year) = true := rfl
  obtain ⟨graded, hg, hx⟩ := bind_eq_ok.1 ((CourseRecord.average_fields s.courses).trans average)
  simp only [ofJson, Json.fields?, Json.fieldOf, readId, List.lookup_cons, String.reduceBEq, Option.getD_some,
    Json.toInteger_int, ok_bind, Json.isBlank, String.isEmpty_iff, Bool.or_eq_true, year, Bool.not_true,
    Bool.false_eq_true, or_false]
  by_cases unnamed : s.term.season = ""
  · simp only [unnamed, ↓reduceIte]
    rfl
  · simp only [unnamed, ↓reduceIte, readCourses_toJson, ok_bind, hg, CourseRecord.total_fields, hx,
      Json.asText_str, Bool.not_not]
    rfl

/-- What is stored of a semester. -/
theorem ofJson_toJson {r : Row} {s : Semester} {json : Json} (hj : s.toJson = .ok json) (hr : ofJson json = .ok r) :
    r.id = s.id ∧ r.term = s.term ∧ r.courses = s.courses.map Entry.fields ∧
      (s.maxCredits.orElse (.int 18)).toInteger = .ok r.maxCredits ∧ r.isActive = s.isActive := by
  obtain ⟨gpa, -, eq⟩ := ofJson_semester hj
  rw [eq] at hr
  split at hr
  · cases hr
  · obtain ⟨n, hn, h⟩ := bind_eq_ok.1 hr
    cases h
    exact ⟨rfl, rfl, rfl, hn, rfl⟩

/-- The row of a stored semester holds it. -/
theorem holds_of_save {r : Row} {s : Semester} {json : Json} (hs : s.Storable) (hj : s.toJson = .ok json)
    (hr : ofJson json = .ok r) : r.Holds s := by
  obtain ⟨hid, hterm, hcourses, hmax, hactive⟩ := ofJson_toJson hj hr
  obtain ⟨ht, ⟨n, hn, hn'⟩, htext, hheld⟩ := hs
  rw [hn', Json.toInteger_orElse, if_neg hn] at hmax
  rw [Holds, Semester.ofJson_row, hid, hterm, hcourses, hactive, ← Except.ok.inj hmax]
  refine ⟨ht, s.courses.map (·.settled s.id), ?_, fun e he => ?_, ?_⟩
  · rw [List.mapM_map]
    exact mapM_ok fun e he => Entry.ofJson_fields (htext e he) (hheld e he)
  · obtain ⟨c, -, rfl⟩ := List.mem_map.1 he
    exact Json.same_refl _
  · simp [Semester.settled, hn', hn]

theorem Holds.id_eq {r : Row} {s : Semester} (h : r.Holds s) : r.id = s.id := by
  obtain ⟨-, es, -, -, hs⟩ := Semester.ofJson_row.1 h
  exact (congrArg Semester.id hs).symm

/-- What a row holds depends on its term, its courses and its settings alone. -/
theorem Holds.congr {r r' : Row} {s : Semester} (h : r.Holds s) (id : r'.id = r.id) (term : r'.term = r.term)
    (courses : r'.courses = r.courses) (maxCredits : r'.maxCredits = r.maxCredits)
    (isActive : r'.isActive = r.isActive) : r'.Holds s := by
  rw [Holds, Semester.ofJson_row] at h ⊢
  rw [id, term, courses, maxCredits, isActive]
  exact h

/-- The courses of a row have the ids of those of the semester that it holds. -/
theorem Holds.ids {r : Row} {s : Semester} (h : r.Holds s) : r.courses.map CourseRecord.id = s.courses.map (·.id) := by
  obtain ⟨-, es, hes, -, hs⟩ := Semester.ofJson_row.1 h
  have hcourses : s.courses.map (·.settled s.id) = es := congrArg Semester.courses hs
  rw [map_eq_of_forall₂ (mapM_eq_ok.1 hes) fun _ _ => Entry.id_of_ofJson, ← hcourses, List.map_map]
  rfl

/-- A semester that was read from a row is held by it, and is stored as it was read. -/
theorem holds_of_ofJson {r : Row} {s : Semester} (h : Semester.ofJson r.toJson = .ok s) :
    r.Holds s ∧ s.Storable ∧ r.id = s.id ∧ s.term = r.term := by
  have plain := Semester.ofJson_eq_ok h
  refine ⟨by rw [Holds, Semester.settled_of_ofJson h]; exact h,
    ⟨plain.term, ?_, fun e he => ?_, fun e he => ?_⟩, ?_, ?_⟩
  · obtain ⟨-, es, -, -, rfl⟩ := Semester.ofJson_row.1 h
    refine ⟨_, ?_, rfl⟩
    split <;> simp_all
  · exact ⟨(plain.courses e he).code, (plain.courses e he).title⟩
  · rw [plain.held e he]; exact Json.same_refl _
  · obtain ⟨-, es, -, -, rfl⟩ := Semester.ofJson_row.1 h
    rfl
  · obtain ⟨-, es, -, -, rfl⟩ := Semester.ofJson_row.1 h
    rfl

end Row
/-! ## Deleting courses -/

namespace Row

theorem keep_eq_ok {ids : List Json} {courses kept : List CourseRecord} (h : keep ids courses = .ok kept) :
    kept = courses.filter fun c => !c.id.isIn ids := by
  induction courses generalizing kept with
  | nil => cases h; rfl
  | cons c courses ih =>
    simp only [keep, List.filterMapM_cons, bind_eq_ok, pure_eq_ok] at h
    obtain ⟨_, ⟨_, -, rfl⟩, h⟩ := h
    cases hc : c.id.isIn ids <;> simp only [hc, Bool.false_eq_true, ↓reduceIte] at h
    · simp only [bind_eq_ok, pure_eq_ok] at h
      obtain ⟨rest, hr, rfl⟩ := h
      simp [hc, ih hr]
    · simp [hc, ih h]

theorem dropCourses_eq_ok {ids : List Json} {r r' : Row} {n : Nat} (h : r.dropCourses ids = (r', .ok n)) :
    ∃ total gpa, r' = { r with courses := r.courses.filter fun c => !c.id.isIn ids, total, gpa } := by
  unfold dropCourses at h
  split at h
  · cases h
  · next courses hc =>
    have := keep_eq_ok hc
    subst this
    dsimp only at h
    split at h
    · cases h
    · split at h <;> cases h
      exact ⟨_, _, rfl⟩

/-- Deleting courses that the semester does not have keeps it. -/
theorem Holds.dropCourses {ids : List Json} {r r' : Row} {s : Semester} {n : Nat} (h : r.Holds s)
    (hr : r.dropCourses ids = (r', .ok n)) (hids : ∀ e ∈ s.courses, e.id.isIn ids = false) : r'.Holds s := by
  obtain ⟨total, gpa, rfl⟩ := dropCourses_eq_ok hr
  refine h.congr rfl rfl (List.filter_eq_self.2 fun c hc => ?_) rfl rfl
  have hc : c.id ∈ s.courses.map (·.id) := h.ids ▸ List.mem_map_of_mem hc
  obtain ⟨e, he, hid⟩ := List.mem_map.1 hc
  rw [← hid, hids e he, Bool.not_false]

end Row

namespace Archive

theorem dropFrom_eq_ok {ids : List Json} {rows rows' : List Row} {n : Nat} (h : dropFrom ids rows = (rows', .ok n)) :
    List.Forall₂ (fun r r' => ∃ n, r.dropCourses ids = (r', .ok n)) rows rows' := by
  induction rows generalizing rows' n with
  | nil => cases h; exact .nil
  | cons r rows ih =>
    unfold dropFrom at h
    split at h
    · cases h
    · next r' k hr =>
      cases hrest : dropFrom ids rows with
      | mk rest result =>
        rw [hrest] at h
        cases result with
        | error f => cases h
        | ok m => cases h; exact .cons ⟨k, hr⟩ (ih hrest)

/-- Some row holds the semester. -/
def Stored (rows : List Row) (s : Semester) : Prop := ∃ r ∈ rows, r.Holds s

variable {rows rows' : List Row} {s : Semester} {r : Row}

theorem Stored.dropFrom {ids : List Json} {n : Nat} (h : Stored rows s) (hd : dropFrom ids rows = (rows', .ok n))
    (hids : ∀ e ∈ s.courses, e.id.isIn ids = false) : Stored rows' s := by
  obtain ⟨r, hr, hs⟩ := h
  obtain ⟨r', hr', _, hd⟩ := exists_of_forall₂ (dropFrom_eq_ok hd) hr
  exact ⟨r', hr', hs.dropCourses hd hids⟩

theorem ids_dropFrom {ids : List Json} {n : Nat} (hd : dropFrom ids rows = (rows', .ok n)) :
    rows'.map (·.id) = rows.map (·.id) := by
  refine (map_eq_of_forall₂ (dropFrom_eq_ok hd) fun r r' ⟨_, h⟩ => ?_).symm
  obtain ⟨_, _, rfl⟩ := Row.dropCourses_eq_ok h
  rfl

theorem mem_dropFrom {ids : List Json} {n : Nat} (hd : dropFrom ids rows = (rows', .ok n)) {r' : Row}
    (hr : r' ∈ rows') : ∃ r ∈ rows, r'.term = r.term := by
  obtain ⟨r, hmem, n, hdrop⟩ := exists_of_forall₂ (R := fun (r' r : Row) => ∃ n, r.dropCourses ids =
    (r', .ok n))
    (dropFrom_eq_ok hd).flip hr
  obtain ⟨total, gpa, rfl⟩ := Row.dropCourses_eq_ok hdrop
  exact ⟨r, hmem, rfl⟩

/-! ## Storing semesters -/

theorem mem_putRow {x : Row} {l : List Row} (h : x ∈ putRow r l) : x = r ∨ x ∈ l := by
  induction l with
  | nil => exact .inl (List.mem_singleton.1 h)
  | cons y l ih =>
    unfold putRow at h
    split at h
    · exact (List.mem_cons.1 h).imp_right (List.mem_cons_of_mem y)
    · rcases List.mem_cons.1 h with rfl | h
      · exact .inr (by simp)
      · exact (ih h).imp_right (List.mem_cons_of_mem y)

theorem mem_putRow_self (r : Row) (l : List Row) : r ∈ putRow r l := by
  induction l with
  | nil => simp [putRow]
  | cons y l ih => unfold putRow; split <;> simp [ih]

theorem mem_putRow_of_ne {x : Row} {l : List Row} (h : x ∈ l) (hne : x.id ≠ r.id) : x ∈ putRow r l := by
  induction l with
  | nil => cases h
  | cons y l ih =>
    unfold putRow
    rcases List.mem_cons.1 h with rfl | h
    · simp [hne]
    · split
      · exact List.mem_cons_of_mem r h
      · exact List.mem_cons_of_mem y (ih h)

theorem ids_putRow (r : Row) (l : List Row) :
    (putRow r l).map (·.id) = if r.id ∈ l.map (·.id) then l.map (·.id) else l.map (·.id) ++ [r.id] := by
  induction l with
  | nil => simp [putRow]
  | cons y l ih =>
    unfold putRow
    by_cases hy : y.id = r.id
    · simp [hy]
    · have : r.id ≠ y.id := fun h => hy h.symm
      simp only [beq_iff_eq, hy, ↓reduceIte, List.map_cons, ih, List.mem_cons, this, false_or]
      split <;> rfl

theorem nodup_putRow {r : Row} {l : List Row} (h : (l.map (·.id)).Nodup) : ((putRow r l).map (·.id)).Nodup := by
  rw [ids_putRow]
  split
  · exact h
  · next hn =>
    rw [List.nodup_append_comm, List.singleton_append, List.nodup_cons]
    exact ⟨hn, h⟩

theorem Stored.putRow (h : Stored rows s) (hne : s.id ≠ r.id) : Stored (putRow r rows) s := by
  obtain ⟨x, hx, hs⟩ := h
  exact ⟨x, mem_putRow_of_ne hx (hs.id_eq.trans_ne hne), hs⟩

/-! ## Requests -/

variable {a b : Archive} {user other : String}

theorem lookup_setRows (user : String) (rows : List Row) (users : List (String × List Row)) :
    (setRows user rows users).lookup user = some rows := by
  induction users with
  | nil => simp [setRows]
  | cons u users ih =>
    obtain ⟨u, rs⟩ := u
    unfold setRows
    split
    · next hu => simp [beq_iff_eq.1 hu]
    · next hu =>
      have : (user == u) = false := by simpa [eq_comm (a := user)] using hu
      simp [List.lookup_cons, this, ih]

theorem lookup_setRows_ne (h : other ≠ user) (rows : List Row) (users : List (String × List Row)) :
    (setRows user rows users).lookup other = users.lookup other := by
  have hb : (other == user) = false := by simpa using h
  induction users with
  | nil => simp [setRows, List.lookup_cons, hb]
  | cons u users ih =>
    obtain ⟨u, rs⟩ := u
    unfold setRows
    split
    · next hu => simp [List.lookup_cons, beq_iff_eq.1 hu, hb]
    · simp [List.lookup_cons, ih]

/-- A semester that is stored is put among the rows of its user. -/
theorem save_eq_ok {payload : Json} (h : a.save user payload = .ok (r, b)) :
    Row.ofJson payload = .ok r ∧ b.rows user = putRow r (a.rows user) ∧
    ∀ other ≠ user, b.rows other = a.rows other := by
  unfold save at h
  split at h
  · simp [bind_eq_ok] at h
  simp only [bind_eq_ok, pure_eq_ok] at h
  obtain ⟨r', hr, h⟩ := h
  cases h
  exact ⟨hr, by simp [rows, lookup_setRows], fun other ho => by simp [rows, lookup_setRows_ne ho]⟩

theorem readIds_arr {ids ids' : List Json} (h : readIds (.arr ids) = .ok ids') : ids' = ids := by
  cases ids with
  | nil => cases h; rfl
  | cons v ids =>
    simp only [readIds, Json.isBlank, List.isEmpty_cons, Bool.false_eq_true, ↓reduceIte, Json.parts,
      ok_bind, bind_eq_ok, pure_eq_ok] at h
    obtain ⟨_, -, rfl⟩ := h
    rfl

/-- Courses are deleted from the rows of their user. -/
theorem delete_eq_ok {ids : List Json} {n : Nat} (h : a.delete user (.arr ids) = (b, .ok n)) :
    (∃ n, dropFrom ids (a.rows user) = (b.rows user, .ok n)) ∧ ∀ other ≠ user, b.rows other = a.rows other := by
  unfold delete at h
  split at h
  · cases h
  split at h
  · cases h
  next ids' hids =>
  obtain rfl := readIds_arr hids
  split at h
  · next hn =>
    cases h
    exact ⟨⟨0, by simp [rows, Option.isNone_iff_eq_none.1 hn, dropFrom]⟩, fun _ _ => rfl⟩
  · obtain ⟨rfl, hr⟩ := Prod.mk.inj h
    exact ⟨⟨n, Prod.ext (by simp [rows, lookup_setRows]) hr⟩,
      fun other ho => by simp [rows, lookup_setRows_ne ho]⟩

/-! ## Loading -/

theorem recordsOf_document (a : Archive) (user : String) :
    Plan.recordsOf (a.document user) = .ok ((a.rows user).map Row.toJson) := by
  simp [document, Plan.recordsOf]

/-- The rows are of semesters of the plan, each once. -/
structure Within (rows : List Row) (p : Plan) : Prop where
  ids : (rows.map (·.id)).Nodup
  known : rows.map (·.id) ⊆ p.semesters.map (·.id)

/-- The rows are of semesters of the plan, each once, and in the order of the plan unless no two of its
semesters are of one time. -/
structure Follows (rows : List Row) (p : Plan) : Prop where
  ids : (rows.map (·.id)).Nodup
  known : rows.map (·.id) ⊆ p.semesters.map (·.id)
  order : rows.map (·.id) = p.semesters.map (·.id) ∨ (p.semesters.map (·.time)).Nodup

variable {p q : Plan}

theorem Within.of_ids (h : Within rows p) (hr : rows'.map (·.id) = rows.map (·.id)) : Within rows' p :=
  ⟨hr ▸ h.ids, hr ▸ h.known⟩

theorem Within.putRow (h : Within rows p) (hr : r.id ∈ p.semesters.map (·.id)) : Within (putRow r rows) p := by
  refine ⟨nodup_putRow h.ids, ?_⟩
  rw [ids_putRow]
  split
  · exact h.known
  · rw [List.append_subset, List.cons_subset]
    exact ⟨h.known, hr, List.nil_subset _⟩

theorem Follows.within (h : Follows rows p) : Within rows p := ⟨h.ids, h.known⟩

theorem Follows.of_ids (h : Follows rows p) (hr : rows'.map (·.id) = rows.map (·.id)) : Follows rows' p :=
  ⟨hr ▸ h.ids, hr ▸ h.known, hr ▸ h.order⟩

theorem Follows.congr (h : Follows rows p) (hq : q.semesters = p.semesters) : Follows rows q :=
  ⟨h.ids, hq ▸ h.known, hq ▸ h.order⟩

theorem Follows.putRow (h : Follows rows p) (hr : r.id ∈ p.semesters.map (·.id)) : Follows (putRow r rows) p := by
  by_cases hm : r.id ∈ rows.map (·.id)
  · exact h.of_ids (by rw [ids_putRow, if_pos hm])
  have put := h.within.putRow hr
  exact ⟨put.ids, put.known, .inr (h.order.resolve_left fun he => hm (he ▸ hr))⟩

theorem eq_of_map_eq {α β : Type} {f : α → β} {l m : List α} (h : l.map f = m.map f) (hm : (m.map f).Nodup)
    (hs : l ⊆ m) : l = m := by
  refine List.ext_getElem (by simpa using congrArg List.length h) fun i hi hj => ?_
  refine List.inj_on_of_nodup_map hm (hs (List.getElem_mem hi)) (List.getElem_mem hj) ?_
  have := congrArg (fun l => l[i]?) h
  simpa [hi, hj] using this

/-- Rows that hold all semesters of a plan are read back as the plan, in their order. -/
theorem Within.read (h : Within rows p) (ids : (p.semesters.map (·.id)).Nodup)
    (hs : ∀ s ∈ p.semesters, Stored rows s) :
    ∃ l : List Semester, List.Forall₂ (fun v s => Semester.ofJson v = .ok s) (rows.map Row.toJson)
      (l.map Semester.settled) ∧
      l.Perm p.semesters ∧ l.map (·.id) = rows.map (·.id) := by
  have holds : ∀ r ∈ rows, ∃ s ∈ p.semesters, r.Holds s := by
    intro r hr
    obtain ⟨s, hm, hid⟩ := List.mem_map.1 (h.known (List.mem_map_of_mem hr))
    obtain ⟨r', hr', hh⟩ := hs s hm
    obtain rfl : r' = r := List.inj_on_of_nodup_map h.ids hr' hr (hh.id_eq.trans hid)
    exact ⟨s, hm, hh⟩
  have : Nonempty Semester := ⟨.ofTerm default⟩
  choose! f hf hh using holds
  have subset : rows.map f ⊆ p.semesters := by
    intro s hm
    obtain ⟨r, hr, rfl⟩ := List.mem_map.1 hm
    exact hf r hr
  have same : (rows.map f).map (·.id) = rows.map (·.id) := by
    rw [List.map_map]
    exact List.map_congr_left fun r hr => (hh r hr).id_eq.symm
  have perm : (rows.map f).Perm p.semesters := by
    refine (List.perm_ext_iff_of_nodup (same ▸ h.ids).of_map ids.of_map).2 fun s =>
      ⟨fun hm => subset hm, fun hm => ?_⟩
    obtain ⟨r, hr, hrs⟩ := hs s hm
    obtain rfl : f r = s := List.inj_on_of_nodup_map ids (hf r hr) hm ((hh r hr).id_eq.symm.trans hrs.id_eq)
    exact List.mem_map_of_mem hr
  refine ⟨rows.map f, ?_, perm, same⟩
  rw [List.forall₂_map_left_iff, List.forall₂_map_right_iff, List.forall₂_map_right_iff]
  exact List.forall₂_same.2 hh

/-- Rows that follow a plan and hold all its semesters are read back as the plan with its listing. -/
theorem Follows.read (h : Follows rows p) (ids : (p.semesters.map (·.id)).Nodup)
    (hs : ∀ s ∈ p.semesters, Stored rows s) :
    ∃ l, List.Forall₂ (fun v s => Semester.ofJson v = .ok s) (rows.map Row.toJson) (l.map Semester.settled) ∧
      l.Perm p.semesters ∧ Plan.sorted l = Plan.sorted p.semesters := by
  obtain ⟨l, hl, perm, same⟩ := h.within.read ids hs
  refine ⟨l, hl, perm, ?_⟩
  rcases h.order with ho | ht
  · rw [eq_of_map_eq (same.trans ho) ids perm.subset]
  · exact (Plan.sorted_eq_of_perm perm.symm ht).symm

/-- Records from which the semesters of a plan are read back can be loaded, and they become the plan in their order. -/
theorem load_settled (hv : p.Valid) (hk : ∀ e ∈ p.entries, e.id.isKey = true) (separate : p.Separate)
    {document : Json} {records : List Json} (hr : Plan.recordsOf document = .ok records) {l : List Semester}
    (hl : List.Forall₂ (fun v s => Semester.ofJson v = .ok s) records (l.map Semester.settled))
    (perm : l.Perm p.semesters) (base : Plan) :
    base.load document = .ok { base with semesters := l.map Semester.settled }.touch := by
  have ids : ((l.map Semester.settled).map (·.id)).Nodup := by
    rw [List.map_map]
    exact (perm.map _).nodup_iff.2 hv.ids
  have kept {β : Type} (f : Entry → β) (hf : ∀ e n, f (Entry.settled n e) = f e) :
      ((l.map Semester.settled).flatMap (·.courses)).map f = (l.flatMap (·.courses)).map f := by
    simp [List.flatMap_map, List.map_flatMap, Semester.settled, Function.comp_def, hf]
  have entries : (l.flatMap (·.courses)).Perm p.entries := perm.flatMap_right _
  refine (Plan.load_records hr hl ids).2 ⟨?_, ?_, fun e he => ?_, rfl⟩
  · rw [kept _ fun _ _ => rfl]
    exact (entries.map _).nodup_iff.2 hv.codes
  · rw [kept _ fun _ _ => rfl]
    exact (entries.map _).nodup_iff.2 separate
  · have : e.id ∈ (l.flatMap (·.courses)).map (·.id) := kept (·.id) (fun _ _ => rfl) ▸ List.mem_map_of_mem he
    obtain ⟨c, hc, hid⟩ := List.mem_map.1 this
    rw [← hid]
    exact hk c (entries.mem_iff.1 hc)

/-- Rows that hold all semesters of a plan can be loaded, and what is loaded are these semesters. -/
theorem Within.load (h : Within rows p) (hv : p.Valid) (hk : ∀ e ∈ p.entries, e.id.isKey = true)
    (separate : p.Separate) (hs : ∀ s ∈ p.semesters, Stored rows s) {document : Json}
    (hr : Plan.recordsOf document = .ok (rows.map Row.toJson)) (base : Plan) :
    ∃ q, ∃ l : List Semester, base.load document = .ok q ∧ l.Perm p.semesters ∧
      q.semesters = l.map Semester.settled := by
  obtain ⟨l, hl, perm, -⟩ := h.read hv.ids hs
  exact ⟨_, l, load_settled hv hk separate hr hl perm base, perm, rfl⟩

/-- Rows that hold all semesters of a plan can be loaded, and what is loaded lists the plan. -/
theorem Follows.load (h : Follows rows p) (hv : p.Valid) (hk : ∀ e ∈ p.entries, e.id.isKey = true)
    (separate : p.Separate) (hs : ∀ s ∈ p.semesters, Stored rows s) {document : Json}
    (hr : Plan.recordsOf document = .ok (rows.map Row.toJson)) (base : Plan) :
    ∃ q, base.load document = .ok q ∧ q.owner = base.owner ∧
      Plan.sorted q.semesters = (Plan.sorted p.semesters).map Semester.settled := by
  obtain ⟨l, hl, perm, sorted⟩ := h.read hv.ids hs
  exact ⟨_, load_settled hv hk separate hr hl perm base, rfl,
    (Plan.sorted_map (g := Semester.settled) fun _ _ => rfl).trans (congrArg _ sorted)⟩

/-- What was loaded from rows follows them, and all its semesters are stored. -/
theorem load_rows (hn : (rows.map (·.id)).Nodup) {document : Json}
    (hr : Plan.recordsOf document = .ok (rows.map Row.toJson)) (h : q.load document = .ok p) :
    Follows rows p ∧ ∀ s ∈ p.semesters, s.Storable ∧ ∃ r ∈ rows, r.Holds s ∧ s.term = r.term := by
  obtain ⟨records, l, hrec, hl⟩ := Plan.load_read h
  obtain rfl : rows.map Row.toJson = records := Except.ok.inj (hr.symm.trans hrec)
  have read : List.Forall₂ (fun r s => Semester.ofJson r.toJson = .ok s) rows l := List.forall₂_map_left_iff.1 hl
  have ids : rows.map (·.id) = l.map (·.id) := map_eq_of_forall₂ read fun r s hs => (Row.holds_of_ofJson hs).2.2.1
  obtain ⟨-, -, -, rfl⟩ := (Plan.load_records hr hl (ids ▸ hn)).1 h
  refine ⟨⟨hn, ids ▸ List.Subset.refl _, .inl ids⟩, fun s hs => ?_⟩
  obtain ⟨r, hr, hrs⟩ := exists_of_forall₂ (R := fun s r => Semester.ofJson (Row.toJson r) = .ok s) read.flip hs
  obtain ⟨hh, hst, -, ht⟩ := Row.holds_of_ofJson hrs
  exact ⟨hst, r, hr, hh, ht⟩

end Archive

/-! ## Listings -/

theorem all_zip_map {α : Type} {same : α → α → Bool} {f : α → α} {l : List α}
    (h : ∀ x ∈ l, same x (f x) = true) : (l.zip (l.map f)).all (fun (x, y) => same x y) = true := by
  induction l with
  | nil => rfl
  | cons x l ih =>
    obtain ⟨hx, hl⟩ := List.forall_mem_cons.1 h
    simp only [List.map_cons, List.zip_cons_cons, List.all_cons, hx, ih hl, Bool.and_true]

theorem Semester.same_settled {s : Semester} (h : ∀ e ∈ s.courses, e.semester.same (.int s.id) = true) :
    s.same s.settled = true := by
  have courses := all_zip_map (f := Entry.settled s.id) fun e he => Entry.same_settled (h e he)
  simp only [same, settled, courses, List.length_map, BEq.rfl, Json.same_refl, Bool.and_self]

namespace Plan

/-- Both plans list the same semesters. -/
def SameListing (p q : Plan) : Prop := ∃ x y, p.snapshot = .ok x ∧ q.snapshot = .ok y ∧ x.sameSemesters y = true

variable {p q : Plan}

/-- A plan whose semesters were read back lists the same semesters. -/
theorem sameListing_settled (hd : ∀ s ∈ p.semesters, s.Dated) (hv : p.Valid)
    (hq : sorted q.semesters = (sorted p.semesters).map Semester.settled) : p.SameListing q := by
  have dated : ∀ s ∈ q.semesters, s.Dated := by
    intro s hs
    rw [← mem_sorted, hq] at hs
    obtain ⟨t, ht, rfl⟩ := List.mem_map.1 hs
    exact hd t (mem_sorted.1 ht)
  refine ⟨_, _, snapshot_eq_ok.2 ⟨_, ordered_of_dated hd, rfl⟩,
    snapshot_eq_ok.2 ⟨_, ordered_of_dated dated, rfl⟩, ?_⟩
  have semesters := all_zip_map (f := Semester.settled) fun s hs => Semester.same_settled (hv.held s (mem_sorted.1 hs))
  simp only [Snapshot.sameSemesters, hq, List.length_map, BEq.rfl, semesters, Bool.and_self]

end Plan
end DegreePlan
