import DegreePlan.Proofs.Archive
import DegreePlan.Proofs.Course.Average
import DegreePlan.Proofs.Json.Writable
import Mathlib.Data.List.Sublists

/-!
# Rows that can be handled

What a submission may raise, and when courses can be dropped from a stored row. Of a row that is sound all courses can
be dropped in any order, and it can be written at any time; a regular submission that is accepted makes such a row.
-/

namespace DegreePlan

/-- Whether a computation gives something can be tested. -/
instance decidableGives {ε α : Type} {x : Except ε α} : Decidable (∃ a, x = .ok a) :=
  match x with
  | .ok a => isTrue ⟨a, rfl⟩
  | .error _ => isFalse nofun

/-- What holds of all that a computation gives can be tested. -/
instance decidableForallOk {ε α : Type} {x : Except ε α} {P : α → Prop} [DecidablePred P] :
    Decidable (∀ a, x = .ok a → P a) :=
  match x with
  | .ok a => decidable_of_iff (P a) (by simp)
  | .error _ => isTrue nofun

/-! ## Conversions -/

namespace Json

/-- An infinite number. -/
def isInfinite : Json → Bool
  | real x => match Number.parts x with
    | .infinite _ => true
    | _ => false
  | _ => false

/-- A truth value, a number that is not infinite, or a text. -/
def isNumeral : Json → Bool
  | null | arr _ | obj _ => false
  | v => !v.isInfinite

end Json

/-- A value of the wrong kind or a number out of range. -/
def Fault.Abrupt (f : Fault) : Prop := f.family = .wrongKind ∨ f.OutOfRange

theorem Fault.not_abrupt {f : Fault} (h : f.isUnacceptable = true) : ¬f.Abrupt := by
  rw [isUnacceptable, beq_iff_eq] at h
  simp [Abrupt, OutOfRange, h]

/-- An unacceptable value, a value of the wrong kind or a number out of range. -/
def Fault.Known (f : Fault) : Prop := f.isUnacceptable = true ∨ f.Abrupt

namespace Json

/-- Numerals raise unacceptable values alone, infinite numbers are out of range, and other values are of the wrong
kind. -/
theorem toInteger_error {v : Json} {f : Fault} (h : v.toInteger = .error f) :
    v.isNumeral = true ∧ f.isUnacceptable = true ∨ v.isInfinite = true ∧ f.OutOfRange ∨
      v.isNumeral = false ∧ f.family = .wrongKind := by
  cases v with
  | null | arr _ | obj _ => cases h; exact .inr (.inr ⟨rfl, rfl⟩)
  | bool _ | int _ => cases h
  | real x =>
    simp only [toInteger] at h
    cases parts : Number.parts x with
    | nan => rw [parts] at h; cases h; exact .inl ⟨by simp [isNumeral, isInfinite, parts], rfl⟩
    | infinite negative => rw [parts] at h; cases h; exact .inr (.inl ⟨by simp [isInfinite, parts], rfl⟩)
    | finite negative m e => rw [parts] at h; cases h
  | str s =>
    simp only [toInteger] at h
    split at h <;> cases h <;> exact .inl ⟨rfl, rfl⟩

theorem isNumeral_of_isInfinite {v : Json} (h : v.isInfinite = true) : v.isNumeral = false := by
  cases v <;> simp_all [isNumeral, isInfinite]

theorem raises_toInteger (v : Json) : Raises Fault.Known v.toInteger := by
  intro f h
  rcases toInteger_error h with ⟨-, accepted⟩ | ⟨-, range⟩ | ⟨-, kind⟩
  · exact .inl accepted
  · exact .inr (.inr range)
  · exact .inr (.inl kind)

theorem raises_toInteger_numeral {v : Json} (hv : v.isNumeral = true) :
    Raises (·.isUnacceptable = true) v.toInteger := by
  intro f h
  rcases toInteger_error h with ⟨-, accepted⟩ | ⟨infinite, -⟩ | ⟨other, -⟩
  · exact accepted
  · simp [isNumeral_of_isInfinite infinite] at hv
  · simp [other] at hv

end Json

/-! ## Totals -/

namespace CourseRecord

variable {courses kept : List CourseRecord}

theorem total_ok_iff : (∃ n, total courses = .ok n) ↔ ∀ c ∈ courses, ∃ n, credits c = .ok n := by
  simp only [total, bind_eq_ok, pure_eq_ok]
  constructor
  · rintro ⟨_, ns, h, -⟩ c hc
    obtain ⟨n, -, hn⟩ := ok_of_mapM h hc
    exact ⟨n, hn⟩
  · intro h
    choose! g hg using h
    exact ⟨_, _, mapM_ok hg, rfl⟩

/-- The credits of some of the courses can be summed if those of all can. -/
theorem total_ok_of_sublist {n : Int} (h : total courses = .ok n) (sub : kept.Sublist courses) :
    ∃ m, total kept = .ok m :=
  total_ok_iff.2 fun c hc => total_ok_iff.1 ⟨n, h⟩ c (sub.subset hc)

theorem raises_total {P : Fault → Prop} (h : ∀ c ∈ courses, Raises P (credits c)) : Raises P (total courses) :=
  raises_bind (raises_mapM h) fun _ _ => raises_ok _

theorem raises_graded {P : Fault → Prop} (h : ∀ c ∈ courses, Raises P (credits c)) : Raises P (graded courses) :=
  raises_mapM fun c hc => raises_bind (h c (List.mem_of_mem_filter hc)) fun _ _ => raises_ok _

/-- Of courses whose credits can be summed, the average fails only where it is out of range. -/
theorem raises_average {n : Int} (h : total courses = .ok n) : Raises Fault.OutOfRange (average courses) := by
  refine raises_bind (raises_graded fun c hc f raised => ?_) fun graded _ => raises_gradePointAverage graded
  obtain ⟨m, hm⟩ := total_ok_iff.1 ⟨n, h⟩ c hc
  simp [hm] at raised

/-- Courses of which any may be dropped: they can be looked up, their credits are numerals, and what is left can be
summed and averaged and has a total that can be written. -/
structure Regular (courses : List CourseRecord) : Prop where
  keys : ∀ c ∈ courses, c.id.isKey = true
  credits : ∀ c ∈ courses, ((Json.fieldOf c "credits").orElse (.int 0)).isNumeral = true
  sums : ∀ kept, kept.Sublist courses → ∀ n, total kept = .ok n → Number.Short n ∧ ∃ x, average kept = .ok x

instance (n : Int) : Decidable (Number.Short n) := inferInstanceAs (Decidable (_ < _))

instance (courses : List CourseRecord) : Decidable (Regular courses) :=
  decidable_of_iff
    ((∀ c ∈ courses, c.id.isKey = true) ∧
      (∀ c ∈ courses, ((Json.fieldOf c "credits").orElse (.int 0)).isNumeral = true) ∧
        ∀ kept ∈ courses.sublists, ∀ n, total kept = .ok n → Number.Short n ∧ ∃ x, average kept = .ok x)
    ⟨fun ⟨keys, credits, sums⟩ => ⟨keys, credits, fun kept sub => sums kept (List.mem_sublists.2 sub)⟩,
      fun ⟨keys, credits, sums⟩ => ⟨keys, credits, fun kept sub => sums kept (List.mem_sublists.1 sub)⟩⟩

end CourseRecord

/-! ## Submissions -/

namespace Row

variable {fields : List (String × Json)} {payload : Json} {r : Row}

/-- The value that a submission gives as its id. -/
def idIn (fields : List (String × Json)) : Json := (fields.lookup "id").getD (Json.fieldOf fields "semester_id")

theorem mem_readCourses {v : Json} {courses : List CourseRecord} (h : readCourses v = .ok courses) {c : CourseRecord}
    (hc : c ∈ courses) : ∃ items, v = .arr items ∧ .obj c ∈ items := by
  unfold readCourses at h
  split at h
  · cases h; cases hc
  · split at h
    · next items _ =>
      obtain ⟨v, hv, read⟩ := mem_of_mapM h hc
      unfold readCourse at read
      split at read
      · next fs hf =>
        split at read
        · cases read
          cases v <;> cases hf
          exact ⟨items, rfl, hv⟩
        · cases read
      · cases read
    · cases h

theorem raises_readCourses (v : Json) : Raises (·.isUnacceptable = true) (readCourses v) := by
  unfold readCourses
  split
  · exact raises_ok _
  · split
    · refine raises_mapM fun c _ f h => ?_
      unfold readCourse at h
      split at h
      · split at h <;> cases h
        rfl
      · cases h; rfl
    · intro f h; cases h; rfl

theorem readId_eq_ok {n : Int} (h : readId fields = .ok n) : (idIn fields).toInteger = .ok n := by
  unfold readId at h
  dsimp only at h
  split at h
  · next read => cases h; exact read
  · split at h <;> cases h

/-- What reading the id raises beyond unacceptable values, its conversion raises. -/
theorem raises_readId {P : Fault → Prop} (unacceptable : ∀ f : Fault, f.isUnacceptable = true → P f)
    (abrupt : ∀ f, (idIn fields).toInteger = .error f → f.family ≠ .wrongKind → P f) :
    Raises P (readId fields) := by
  intro f h
  unfold readId at h
  dsimp only at h
  split at h
  · cases h
  · next f' raised =>
    split at h <;> cases h
    · exact unacceptable _ rfl
    · next other =>
      simp only [Bool.or_eq_true, beq_iff_eq, not_or] at other
      exact abrupt _ raised other.1

/-- What reading a submission raises beyond unacceptable values is raised by a conversion or by the average. -/
theorem raises_ofJson {P : Fault → Prop} (unacceptable : ∀ f : Fault, f.isUnacceptable = true → P f)
    (id : ∀ f, (idIn fields).toInteger = .error f → f.family ≠ .wrongKind → P f)
    (year : namesYear (Json.fieldOf fields "year") = true → Raises P (Json.fieldOf fields "year").toInteger)
    (credits : ∀ courses, readCourses (Json.fieldOf fields "courses") = .ok courses →
      ∀ c ∈ courses, Raises P (CourseRecord.credits c))
    (average : ∀ courses n, readCourses (Json.fieldOf fields "courses") = .ok courses →
      CourseRecord.total courses = .ok n → Raises P (CourseRecord.average courses))
    (maxCredits : Raises P ((Json.fieldOf fields "max_credits").orElse (.int 18)).toInteger) :
    Raises P (ofJson (.obj fields)) := by
  unfold ofJson
  simp only [Json.fields?]
  refine raises_bind (raises_readId unacceptable id) fun n _ => ?_
  split
  · exact raises_throw_bind (unacceptable _ rfl) _
  · next named =>
    simp only [Bool.or_eq_true, Bool.not_eq_true', not_or, Bool.not_eq_false] at named
    refine raises_bind (fun f h => unacceptable f (raises_readCourses _ f h)) fun courses hc => ?_
    refine raises_bind (CourseRecord.raises_graded (credits courses hc)) fun graded hg => ?_
    refine raises_bind (year named.2) fun y _ => ?_
    refine raises_bind (CourseRecord.raises_total (credits courses hc)) fun total ht => ?_
    refine raises_bind ?_ fun x _ => ?_
    · have := average courses total hc ht
      rwa [CourseRecord.average, hg] at this
    · exact raises_bind maxCredits fun _ _ => raises_ok _

/-- What the submission of a semester raises: an unacceptable value, a value of the wrong kind or a number out of
range. -/
theorem raises_ofJson_known (payload : Json) : Raises Fault.Known (ofJson payload) := by
  cases payload with
  | obj fields =>
    have average (courses : List CourseRecord) : Raises Fault.Known (CourseRecord.average courses) :=
      raises_bind (CourseRecord.raises_graded fun c _ => Json.raises_toInteger _) fun graded _ f raised =>
        .inr (.inr (raises_gradePointAverage graded f raised))
    exact raises_ofJson (fun f => .inl) (fun f raised _ => Json.raises_toInteger _ f raised)
      (fun _ => Json.raises_toInteger _) (fun _ _ c _ => Json.raises_toInteger _)
      (fun courses _ _ _ => average courses) (Json.raises_toInteger _)
  | _ => exact fun f h => by cases h; exact .inl rfl

/-- A submission whose id is not infinite, whose other numbers are numerals and whose courses are regular. -/
structure Regular (fields : List (String × Json)) : Prop where
  id : (idIn fields).isInfinite = false
  year : namesYear (Json.fieldOf fields "year") = true → (Json.fieldOf fields "year").isNumeral = true
  maxCredits : ((Json.fieldOf fields "max_credits").orElse (.int 18)).isNumeral = true
  courses : ∀ courses, readCourses (Json.fieldOf fields "courses") = .ok courses → CourseRecord.Regular courses

instance (fields : List (String × Json)) : Decidable (Regular fields) :=
  decidable_of_iff
    ((idIn fields).isInfinite = false ∧
      (namesYear (Json.fieldOf fields "year") = true → (Json.fieldOf fields "year").isNumeral = true) ∧
        ((Json.fieldOf fields "max_credits").orElse (.int 18)).isNumeral = true ∧
          ∀ courses, readCourses (Json.fieldOf fields "courses") = .ok courses → CourseRecord.Regular courses)
    ⟨fun ⟨id, year, maxCredits, courses⟩ => ⟨id, year, maxCredits, courses⟩,
      fun ⟨id, year, maxCredits, courses⟩ => ⟨id, year, maxCredits, courses⟩⟩

/-- A regular submission raises unacceptable values alone. -/
theorem Regular.raises_ofJson (h : Regular fields) : Raises (·.isUnacceptable = true) (ofJson (.obj fields)) := by
  refine Row.raises_ofJson (fun _ accepted => accepted) (fun f raised kind => ?_)
    (fun named => Json.raises_toInteger_numeral (h.year named))
    (fun courses read c hc => Json.raises_toInteger_numeral ((h.courses courses read).credits c hc))
    (fun courses n read sum => ?_) (Json.raises_toInteger_numeral h.maxCredits)
  · rcases Json.toInteger_error raised with ⟨-, accepted⟩ | ⟨infinite, -⟩ | ⟨-, wrong⟩
    · exact accepted
    · simp [h.id] at infinite
    · exact absurd wrong kind
  · obtain ⟨-, x, average⟩ := (h.courses courses read).sums courses (.refl _) n sum
    rw [average]
    exact raises_ok x

theorem ofJson_eq_ok (h : ofJson payload = .ok r) :
    ∃ fields, payload = .obj fields ∧ (idIn fields).toInteger = .ok r.id ∧
    (Json.fieldOf fields "year").toInteger = .ok r.term.year ∧
    readCourses (Json.fieldOf fields "courses") = .ok r.courses ∧
    CourseRecord.total r.courses = .ok r.total ∧ CourseRecord.average r.courses = .ok r.gpa ∧
    ((Json.fieldOf fields "max_credits").orElse (.int 18)).toInteger = .ok r.maxCredits := by
  cases payload with
  | obj fields =>
    simp only [ofJson, Json.fields?, bind_eq_ok] at h
    obtain ⟨id, hid, h⟩ := h
    split at h
    · simp [bind_eq_ok] at h
    · simp only [bind_eq_ok, pure_eq_ok] at h
      obtain ⟨courses, hc, graded, hg, year, hy, total, ht, gpa, hx, maxCredits, hm, rfl⟩ := h
      exact ⟨fields, rfl, readId_eq_ok hid, hy, hc, ht, bind_eq_ok.2 ⟨graded, hg, hx⟩, hm⟩
  | _ => cases h

/-! ## Sound rows -/

theorem isWritable_toJson : r.toJson.isWritable = true ↔ Number.Short r.id ∧ Number.Short r.term.year ∧
    (∀ c ∈ r.courses, (Json.obj c).isWritable = true) ∧ Number.Short r.total ∧ Number.Short r.maxCredits := by
  rw [toJson, Json.isWritable_obj]
  simp [Json.isWritable_arr, Json.isWritable_int]

/-- A row that can be written whatever courses are dropped from it, and from which all can be dropped. -/
structure Sound (r : Row) : Prop where
  keys : ∀ c ∈ r.courses, c.id.isKey = true
  sums : ∀ kept, kept.Sublist r.courses →
    ∃ n x, CourseRecord.total kept = .ok n ∧ Number.Short n ∧ CourseRecord.average kept = .ok x
  written : r.toJson.isWritable = true

/-- A regular submission that can be written makes a sound row. -/
theorem Regular.sound (h : Regular fields) (written : (Json.obj fields).isWritable = true)
    (read : ofJson (.obj fields) = .ok r) : r.Sound := by
  obtain ⟨_, ⟨⟩, id, year, courses, total, -, maxCredits⟩ := ofJson_eq_ok read
  have regular := h.courses _ courses
  have number {v : Json} {n : Int} (hv : v.isWritable = true) (hn : v.toInteger = .ok n) : Number.Short n :=
    Json.short_of_toInteger hv hn
  refine ⟨regular.keys, fun kept sub => ?_,
    isWritable_toJson.2 ⟨number ?_ id, number ?_ year, fun c hc => ?_, ?_, number ?_ maxCredits⟩⟩
  · obtain ⟨n, hn⟩ := CourseRecord.total_ok_of_sublist total sub
    obtain ⟨short, x, hx⟩ := regular.sums kept sub n hn
    exact ⟨n, x, hn, short, hx⟩
  · unfold idIn
    cases found : fields.lookup "id" with
    | some v => exact Json.isWritable_lookup written found
    | none => exact Json.isWritable_fieldOf written "semester_id"
  · exact Json.isWritable_fieldOf written "year"
  · obtain ⟨items, hv, hm⟩ := mem_readCourses courses hc
    exact Json.isWritable_arr.1 (hv ▸ Json.isWritable_fieldOf written "courses") _ hm
  · exact (regular.sums _ (.refl _) _ total).1
  · unfold Json.orElse
    split
    · exact Json.isWritable_int.2 (Number.short_of_lt_ten (k := 2) (by decide) (by decide))
    · exact Json.isWritable_fieldOf written "max_credits"

/-! ## Dropping courses -/

/-- The courses that are left. -/
def left (ids : List Json) (r : Row) : List CourseRecord := r.courses.filter fun c => !c.id.isIn ids

/-- A row from which courses cannot be dropped: one of its courses cannot be looked up, or what is left cannot be summed
or averaged. -/
inductive Stuck (ids : List Json) (r : Row) : Prop where
  | unkeyed {c : CourseRecord} (stored : c ∈ r.courses) (unkeyed : c.id.isKey = false)
  | total {f : Fault} (raised : CourseRecord.total (r.left ids) = .error f)
  | average {f : Fault} (raised : CourseRecord.average (r.left ids) = .error f)

theorem keep_ok {ids : List Json} (h : ∀ c ∈ r.courses, c.id.isKey = true) :
    keep ids r.courses = .ok (r.left ids) := by
  have select : ∀ c ∈ r.courses,
    (do c.id.checkKey; return if c.id.isIn ids then none else some c : Except Fault _) =
      .ok (Option.guard (fun c => !c.id.isIn ids) c) := fun c hc => by
    simp only [Json.checkKey, h c hc, ↓reduceIte, ok_bind, Option.guard_def]
    cases c.id.isIn ids <;> rfl
  rw [keep, filterMapM_ok select, List.filterMap_eq_filter, left]

theorem keys_of_keep {ids : List Json} {courses kept : List CourseRecord} (h : keep ids courses = .ok kept) :
    ∀ c ∈ courses, c.id.isKey = true := by
  induction courses generalizing kept with
  | nil => exact List.forall_mem_nil _
  | cons c courses ih =>
    simp only [keep, List.filterMapM_cons, bind_eq_ok] at h
    obtain ⟨chosen, ⟨_, key, -⟩, h⟩ := h
    refine List.forall_mem_cons.2 ⟨?_, ?_⟩
    · unfold Json.checkKey at key
      split at key
      · next isKey => exact isKey
      · cases key
    · cases chosen with
      | none => exact ih h
      | some c =>
        obtain ⟨rest, hr, -⟩ := bind_eq_ok.1 h
        exact ih hr

/-- Courses cannot be dropped exactly from the rows that are stuck. -/
theorem dropCourses_error_iff {ids : List Json} : (∃ f, (r.dropCourses ids).2 = .error f) ↔ r.Stuck ids := by
  by_cases keys : ∀ c ∈ r.courses, c.id.isKey = true
  · rw [dropCourses, keep_ok keys]
    dsimp only
    cases total : CourseRecord.total (r.left ids) with
    | error f => exact ⟨fun _ => .total total, fun _ => ⟨f, rfl⟩⟩
    | ok n =>
      cases average : CourseRecord.average (r.left ids) with
      | error f => exact ⟨fun _ => .average average, fun _ => ⟨f, rfl⟩⟩
      | ok x =>
        refine ⟨nofun, fun stuck => ?_⟩
        cases stuck with
        | unkeyed stored unkeyed => simp [keys _ stored] at unkeyed
        | total raised => simp [total] at raised
        | average raised => simp [average] at raised
  · cases kept : keep ids r.courses with
    | ok l => exact absurd (keys_of_keep kept) keys
    | error f =>
      rw [dropCourses, kept]
      refine ⟨fun _ => ?_, fun _ => ⟨f, rfl⟩⟩
      simp only [not_forall, Bool.not_eq_true] at keys
      obtain ⟨c, stored, unkeyed⟩ := keys
      exact .unkeyed stored unkeyed

/-- Courses can be dropped from a sound row, and it stays sound. -/
theorem Sound.dropCourses (h : r.Sound) (ids : List Json) : ∃ r' n, r.dropCourses ids = (r', .ok n) ∧ r'.Sound := by
  have sub : (r.left ids).Sublist r.courses := List.filter_sublist
  obtain ⟨n, x, total, short, average⟩ := h.sums _ sub
  refine ⟨{ r with courses := r.left ids, total := n, gpa := x }, r.courses.length - (r.left ids).length, ?_, ?_⟩
  · rw [Row.dropCourses, keep_ok h.keys]
    simp only [total, average]
  · obtain ⟨id, year, courses, -, maxCredits⟩ := isWritable_toJson.1 h.written
    exact ⟨fun c hc => h.keys c (sub.subset hc), fun kept hk => h.sums kept (hk.trans sub),
      isWritable_toJson.2 ⟨id, year, fun c hc => courses c (sub.subset hc), short, maxCredits⟩⟩

end Row

namespace Archive

variable {ids : List Json} {rows : List Row}

theorem readIds_ok (keys : ∀ v ∈ ids, v.isKey = true) : readIds (.arr ids) = .ok ids := by
  have checked : ids.forM Json.checkKey = .ok () := Json.forM_checkKey.2 keys
  cases ids with
  | nil => rfl
  | cons v ids =>
    simp only [readIds, Json.isBlank, List.isEmpty_cons, Bool.false_eq_true, ↓reduceIte, Json.parts, ok_bind, checked]
    rfl

theorem dropFrom_error_iff : (∃ f, (dropFrom ids rows).2 = .error f) ↔ ∃ r ∈ rows, r.Stuck ids := by
  induction rows with
  | nil => simp [dropFrom]
  | cons r rows ih =>
    rw [List.exists_mem_cons_iff, ← ih, ← Row.dropCourses_error_iff, dropFrom]
    rcases r.dropCourses ids with ⟨r', f | n⟩
    · simp
    · cases h : (dropFrom ids rows).2 <;> simp [Except.map, h]

/-- Courses can be dropped from sound rows, and all of them stay sound. -/
theorem dropFrom_sound (h : ∀ r ∈ rows, r.Sound) :
    (∃ n, (dropFrom ids rows).2 = .ok n) ∧ ∀ r ∈ (dropFrom ids rows).1, r.Sound := by
  induction rows with
  | nil => exact ⟨⟨0, rfl⟩, h⟩
  | cons r rows ih =>
    obtain ⟨hr, hl⟩ := List.forall_mem_cons.1 h
    obtain ⟨r', n, drop, sound⟩ := hr.dropCourses ids
    obtain ⟨⟨m, rest⟩, sounds⟩ := ih hl
    rw [dropFrom, drop]
    exact ⟨⟨n + m, by simp [rest, Except.map]⟩, List.forall_mem_cons.2 ⟨sound, sounds⟩⟩

end Archive
end DegreePlan
