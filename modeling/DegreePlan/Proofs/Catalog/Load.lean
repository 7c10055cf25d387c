import DegreePlan.Catalog.Load
import DegreePlan.Proofs.Requirement.Refusal

/-!
# Loading catalogs row by row

A catalog holds one course for every code, read from the first row of the code and from nothing else. Whatever the
cells of a row hold, the row gives a course, with three exceptions that stop the loading of the whole catalog: infinite
credits, an object whose courses are no list in place of a tree, and a choice in prose whose count is too long.
-/

namespace DegreePlan

namespace CourseRow

open Requirement

variable {r : CourseRow}

/-! ## Single rows -/

/-- The whole part of the credits; a cell that is no number counts as zero. -/
def wholeCredits (r : CourseRow) : Int := ((r.credits.bind Number.readFloat?).bind Number.truncate?).getD 0

/-- The prerequisites are given as a tree. -/
def hasTree (r : CourseRow) : Bool := !(Text.strip (r.tree.getD "")).isEmpty

/-- What the prerequisites of a row are read as, from the tree if there is one and else from the prose, `none` if they
cannot be used. -/
def requirement (r : CourseRow) : Option (Option Requirement) :=
  if r.hasTree then (Json.parse? (r.tree.getD "")).bind fun v => (ofWire v).toOption
  else (ofProse (r.prose.getD "")).toOption

/-- The course that a row lists. Prerequisites that cannot be used count as none. -/
def entry (r : CourseRow) (code : String) : Listing where
  code
  title := Text.strip (r.title.getD "")
  credits := r.wholeCredits
  prerequisites := r.requirement.join
  isMalformed := r.requirement.isNone
  offerings := r.readOfferings

theorem prerequisites_entry (code : String) : (r.entry code).prerequisites = r.requirement.join := by rw [entry]

theorem isMalformed_entry (code : String) : (r.entry code).isMalformed = r.requirement.isNone := by rw [entry]

/-- The credits are infinite. -/
def Endless (r : CourseRow) : Prop :=
  ∃ x negative, r.credits.bind Number.readFloat? = some x ∧ Number.parts x = .infinite negative

/-- The prerequisites stop the loading: the tree is an object whose courses are no list, or the prose is a choice with
an overlong count. -/
def Stuck (r : CourseRow) : Prop :=
  if r.hasTree then ∃ v, Json.parse? (r.tree.getD "") = some v ∧ Unlisted v else Prose.Uncountable (r.prose.getD "")

/-- A row that stops the loading. -/
def Stops (r : CourseRow) : Prop := r.Endless ∨ r.Stuck

theorem readCredits_cases (r : CourseRow) :
    (r.Endless ∧ r.readCredits = .error (.value .infinityAsInteger)) ∨ ¬ r.Endless ∧
    r.readCredits = .ok r.wholeCredits := by
  unfold readCredits wholeCredits Endless
  cases r.credits.bind Number.readFloat? with
  | none => exact .inr ⟨by simp, rfl⟩
  | some x =>
    simp only [Option.some.injEq, exists_and_left, exists_eq_left', Json.toInteger, Option.bind_some, Number.truncate?,
      Number.fraction?]
    cases hx : Number.parts x with
    | nan => exact .inr ⟨by simp, rfl⟩
    | infinite negative => exact .inl ⟨⟨negative, rfl⟩, rfl⟩
    | finite => exact .inr ⟨by simp, rfl⟩

theorem readCredits_of_finite (h : ¬ r.Endless) : r.readCredits = .ok r.wholeCredits :=
  (r.readCredits_cases.resolve_left fun endless => h endless.1).2

/-- Reading a value is given up for good exactly where its courses are no list. -/
theorem ofWire_cases (v : Json) :
    (Unlisted v ∧ ∃ f, ofWire v = .error f ∧ f.isUnacceptable = false) ∨
      ¬ Unlisted v ∧ ((∃ tree, ofWire v = .ok tree) ∨ ∃ f, ofWire v = .error f ∧
        f.isUnacceptable = true) := by
  by_cases unlisted : Unlisted v
  · obtain ⟨kind, stuck⟩ := ofWire_unlisted unlisted
    exact .inl ⟨unlisted, _, stuck, rfl⟩
  · refine .inr ⟨unlisted, ?_⟩
    cases read : ofWire v with
    | ok tree => exact .inl ⟨tree, rfl⟩
    | error f =>
      have faulty : f.isTreeFault = true := (gives_ofWire unlisted).of_error read
      cases f with
      | tree cause => exact .inr ⟨_, rfl, rfl⟩
      | _ => cases faulty

theorem readPrerequisites_of_prose (h : r.hasTree = false) :
    r.readPrerequisites = match ofProse (r.prose.getD "") with
      | .ok tree => .ok (some tree)
      | .error f => if f.isTreeFault then .ok none else .error f := by
  have blank : (Text.strip (r.tree.getD "")).isEmpty = true := by rwa [hasTree, Bool.not_eq_false'] at h
  cases read : ofProse (r.prose.getD "") <;> simp only [readPrerequisites, blank, if_true, read]

theorem readPrerequisites_of_tree (h : r.hasTree = true) :
    r.readPrerequisites = match readTree (r.tree.getD "") with
      | .ok tree => .ok (some tree)
      | .error f => if f.isUnacceptable then .ok none else .error f := by
  have filled : (Text.strip (r.tree.getD "")).isEmpty = false := by rwa [hasTree, Bool.not_eq_true'] at h
  cases read : readTree (r.tree.getD "") <;> simp only [readPrerequisites, filled, Bool.false_eq_true, if_false, read]

/-- The prerequisites of a row are read, as none if they cannot be used, unless they stop the loading. -/
theorem readPrerequisites_cases (r : CourseRow) :
    (r.Stuck ∧ ∃ f, r.readPrerequisites = .error f) ∨ ¬ r.Stuck ∧ r.readPrerequisites = .ok r.requirement := by
  cases h : r.hasTree with
  | false =>
    simp only [Stuck, requirement, h, readPrerequisites_of_prose, Bool.false_eq_true, if_false]
    rcases ofProse_cases (r.prose.getD "") with ⟨long, f, stuck, other⟩ |
      ⟨short, ⟨tree, read⟩ | ⟨f, broken, faulty⟩⟩
    · exact .inl ⟨long, f, by simp [stuck, other]⟩
    · exact .inr ⟨short, by simp only [read]; rfl⟩
    · exact .inr ⟨short, by simp only [broken, faulty]; rfl⟩
  | true =>
    simp only [Stuck, requirement, h, readPrerequisites_of_tree, readTree, if_true]
    cases Json.parse? (r.tree.getD "") with
    | none => exact .inr ⟨by simp, rfl⟩
    | some v =>
      simp only [Option.some.injEq, exists_eq_left', Option.bind_some]
      rcases ofWire_cases v with ⟨unlisted, f, stuck, other⟩ |
        ⟨listed, ⟨tree, read⟩ | ⟨f, broken, faulty⟩⟩
      · exact .inl ⟨unlisted, f, by simp [stuck, other]⟩
      · exact .inr ⟨listed, by simp only [read]; rfl⟩
      · exact .inr ⟨listed, by simp only [broken, faulty]; rfl⟩

/-- A row is listed by its entry unless it stops the loading. -/
theorem listed_iff {code : String} {l : Listing} :
    (∃ n, r.readCredits = .ok n ∧ r.toListing code n = .ok l) ↔ ¬ r.Stops ∧ l = r.entry code := by
  rw [Stops, not_or]
  rcases r.readCredits_cases with ⟨endless, stuck⟩ | ⟨finite, credits⟩
  · simp [stuck, endless]
  · rcases r.readPrerequisites_cases with ⟨stuck, f, failed⟩ | ⟨free, read⟩
    · simp [credits, toListing, failed, stuck]
    · rw [credits, and_iff_right ⟨finite, free⟩]
      simp only [Except.ok.injEq, exists_eq_left', toListing, read, ok_bind]
      exact pure_eq_ok.trans eq_comm

end CourseRow

namespace Catalog

variable {rows : List CourseRow} {r : CourseRow} {code : String} {courses : List Listing}

/-! ## First rows -/

/-- The first row of a code. -/
def First (rows : List CourseRow) (code : String) (r : CourseRow) : Prop := rows.find? (·.code? == some code) = some r

theorem first_cons (x : CourseRow) (rows : List CourseRow) :
    First (x :: rows) code r ↔ if x.code? = some code then x = r else First rows code r := by
  rw [First, List.find?_cons]
  by_cases h : x.code? = some code
  · simp [h]
  · simp [h, First, beq_eq_false_iff_ne.2 h]

theorem First.code? (h : First rows code r) : r.code? = some code := by simpa using List.find?_some h

/-- Keeps a row if it is the first one of its code. -/
def addRow (kept : List (String × CourseRow)) (r : CourseRow) : List (String × CourseRow) :=
  match r.code? with
  | none => kept
  | some code => if kept.any (·.1 == code) then kept else kept ++ [(code, r)]

theorem firstRows_eq (rows : List CourseRow) : firstRows rows = rows.foldl addRow [] := rfl

theorem addRow_none (kept : List (String × CourseRow)) (h : r.code? = none) : addRow kept r = kept := by
  simp only [addRow, h]

theorem addRow_some (kept : List (String × CourseRow)) (h : r.code? = some code) :
    addRow kept r = if (kept.map (·.1)).contains code then kept else kept ++ [(code, r)] := by
  have known : kept.any (·.1 == code) = (kept.map (·.1)).contains code := by
    rw [List.contains_eq_any_beq, List.any_map]
    simp [Function.comp_def, BEq.comm]
  simp only [addRow, h, known]

theorem codes_firstRows (rows : List CourseRow) :
    (firstRows rows).map (·.1) = (rows.filterMap (·.code?)).eraseDups := by
  rw [← Course.distinct_eq_eraseDups, firstRows_eq, Course.distinct]
  suffices run : ∀ kept, (rows.foldl addRow kept).map (·.1) = (rows.filterMap (·.code?)).foldl
      (fun kept code => if kept.contains code then kept else kept ++ [code]) (kept.map (·.1)) from run []
  induction rows with
  | nil => exact fun kept => rfl
  | cons r rows ih =>
    intro kept
    rw [List.foldl_cons, ih]
    cases h : r.code? with
    | none => rw [List.filterMap_cons_none h, addRow_none kept h]
    | some code =>
      rw [List.filterMap_cons_some h, List.foldl_cons, addRow_some kept h]
      congr 1
      split <;> simp

/-- The rows that are kept are those that are the first of their codes. -/
theorem mem_firstRows : (code, r) ∈ firstRows rows ↔ First rows code r := by
  suffices run : ∀ kept, (code, r) ∈ rows.foldl addRow kept ↔
      (code, r) ∈ kept ∨ code ∉ kept.map (·.1) ∧ First rows code r by
    rw [firstRows_eq, run]; simp
  induction rows with
  | nil => simp [First]
  | cons x rows ih =>
    intro kept
    rw [List.foldl_cons, ih, first_cons]
    cases h : x.code? with
    | none => rw [addRow_none kept h, if_neg (by simp)]
    | some c =>
      simp only [addRow_some kept h, List.contains_iff_mem, Option.some.injEq]
      -- a row whose code was kept before is the first of no new code
      by_cases old : c ∈ kept.map (·.1)
      · rw [if_pos old]
        split
        · rename_i same
          exact or_congr_right ⟨fun new => absurd (same ▸ old) new.1, fun new => absurd (same ▸ old) new.1⟩
        · exact Iff.rfl
      · rw [if_neg old, List.mem_append, List.mem_singleton, List.map_append, List.mem_append, List.map_singleton,
          List.mem_singleton, Prod.mk.injEq, or_assoc]
        refine or_congr_right ?_
        split
        · rename_i same
          subst same
          simp [old, eq_comm]
        · rename_i other
          simp [Ne.symm other]

/-! ## Listings -/

/-- Once all credits are read, the rows are listed one by one. -/
theorem listings_of_finite {rows : List (String × CourseRow)} (finite : ∀ row ∈ rows, ¬ row.2.Endless) :
    listings rows = rows.mapM fun row => row.2.toListing row.1 row.2.wholeCredits := by
  have credits : rows.mapM (fun row => row.2.readCredits) = .ok (rows.map (·.2.wholeCredits)) :=
    mapM_ok fun row hrow => CourseRow.readCredits_of_finite (finite row hrow)
  -- a row beside its credits tells no more than the row
  have pairs : rows.zip (rows.map (·.2.wholeCredits)) = rows.map fun row => (row, row.2.wholeCredits) := by
    simpa using List.zip_map' (f := id) (g := fun row : String × CourseRow => row.2.wholeCredits) (l := rows)
  change (rows.mapM (fun row => row.2.readCredits) >>= _) = _
  rw [credits, ok_bind, pairs, List.mapM_map]
  rfl

/-- A row that stops the loading stops it for all. -/
theorem not_stops_of_listings {rows : List (String × CourseRow)} (h : listings rows = .ok courses) :
    ∀ row ∈ rows, ¬ row.2.Stops := by
  -- the credits of all rows were read before anything else, so none of them is infinite
  have finite : ∀ row ∈ rows, ¬ row.2.Endless := fun row hrow endless => by
    obtain ⟨credits, read, -⟩ := bind_eq_ok.1 h
    obtain ⟨n, -, hn⟩ := ok_of_mapM read hrow
    rcases row.2.readCredits_cases with ⟨-, stuck⟩ | ⟨finite, -⟩
    · cases stuck.symm.trans hn
    · exact finite endless
  intro row hrow
  rw [listings_of_finite finite] at h
  obtain ⟨l, -, listed⟩ := ok_of_mapM h hrow
  exact (CourseRow.listed_iff.1 ⟨_, CourseRow.readCredits_of_finite (finite row hrow), listed⟩).1

/-- Rows none of which stops the loading are listed by their entries. -/
theorem listings_ok {rows : List (String × CourseRow)} (free : ∀ row ∈ rows, ¬ row.2.Stops) :
    listings rows = .ok (rows.map fun row => row.2.entry row.1) := by
  rw [listings_of_finite fun row hrow endless => free row hrow (.inl endless)]
  refine mapM_ok fun row hrow => ?_
  obtain ⟨n, credits, listed⟩ := CourseRow.listed_iff.2 ⟨free row hrow, rfl⟩
  rw [CourseRow.readCredits_of_finite fun endless => free row hrow (.inl endless)] at credits
  exact Except.ok.inj credits ▸ listed

/-! ## Tables -/

/-- The names of the columns as they are compared. -/
def columnKeys (header : Table.Record) : List String := (Table.nameColumns header.fields).map columnKey

/-- A text whose records have as many fields each as the first one, which names the columns. The names are distinct,
and the two that are needed are among them. -/
structure Regular (text : String) (header : Table.Record) (records : List Table.Record) : Prop where
  closed : (Table.scan text).place ≠ .quoted
  scanned : (Table.scan text).finish.records.reverse = header :: records
  even : ∀ record ∈ records, record.fields.length = header.fields.length
  distinct : (columnKeys header).Nodup
  required : ∀ name ∈ requiredColumns, name ∈ columnKeys header

/-- The rows of courses in a table. -/
def courseRows (header : Table.Record) (records : List Table.Record) : List CourseRow :=
  records.map fun record => .ofCells (columnKeys header) (record.fields.map Table.cell)

theorem length_assign (n : Table.Naming) (column : Nat) : (n.assign column).names.length = n.names.length := by
  unfold Table.Naming.assign
  dsimp only
  split
  · rfl
  · exact List.length_set ..

theorem length_nameColumns (fields : List String) : (Table.nameColumns fields).length = fields.length := by
  unfold Table.nameColumns
  dsimp only
  refine (List.foldlRecOn (motive := fun n : Table.Naming => n.names.length = fields.length) _ _ (by simp) ?_)
  exact fun n kept column _ => (length_assign n column.2).trans kept

/-- Records of the width of the columns are rows as they are. -/
theorem align_even {width : Nat} {records : List Table.Record}
    (even : ∀ record ∈ records, record.fields.length = width) :
    Table.align width records = .ok (records.map (·.fields)) := by
  induction records with
  | nil => rfl
  | cons record records ih =>
    obtain ⟨first, rest⟩ := List.forall_mem_cons.1 even
    rw [Table.align, if_neg (by omega), ih rest, Table.padTo, first, Nat.sub_self, List.replicate_zero, List.append_nil]
    rfl

theorem alignRows_even {width : Nat} {records : List Table.Record}
    (even : ∀ record ∈ records, record.fields.length = width) :
    Table.alignRows width records = .ok (records.map (·.fields)) := by
  cases records with
  | nil => rfl
  | cons record records =>
    rw [Table.alignRows, even record (List.mem_cons_self ..), Nat.max_self]
    exact align_even even

theorem Regular.read {text : String} {header : Table.Record} {records : List Table.Record}
    (h : Regular text header records) :
    Table.read text = .ok { columns := Table.nameColumns header.fields
                            rows := records.map fun record => record.fields.map Table.cell } := by
  have open_quote : ((Table.scan text).place == .quoted) = false := by simpa using h.closed
  have cells : ∀ record ∈ records, Table.cells header.fields.length record.fields = record.fields.map Table.cell :=
    fun record hr => by rw [Table.cells, h.even record hr, Nat.sub_self, List.drop_zero]
  simp only [Table.read, open_quote, Bool.false_eq_true, if_false, h.scanned, Table.ofRecords, length_nameColumns,
    alignRows_even h.even, ok_bind, List.map_map]
  have rows : records.map (Table.cells header.fields.length ∘ (·.fields)) =
    records.map fun record => record.fields.map Table.cell :=
    List.map_congr_left cells
  rw [rows]
  rfl

/-- The catalog of courses under columns. -/
def withColumns (header : Table.Record) (courses : List Listing) : Catalog where
  columns := columnKeys header ++ optionalColumns.filter fun name => !(columnKeys header).contains name
  courses

theorem courses_withColumns (header : Table.Record) (courses : List Listing) :
    (withColumns header courses).courses = courses := rfl

/-- A regular text is loaded by listing the first rows of the codes. -/
theorem Regular.load_eq_ok {path text : String} {header : Table.Record} {records : List Table.Record}
    (h : Regular text header records) {c : Catalog} : (load path (some text)).2 = .ok c ↔
      ∃ courses, listings (firstRows (courseRows header records)) = .ok courses ∧
        c = withColumns header courses := by
  have absent : (requiredColumns.filter fun name => !(columnKeys header).contains name) = [] :=
    List.filter_eq_nil_iff.2 fun name hn => by simpa using h.required name hn
  have columns (rows : List (List (Option String))) :
      columnsOf { columns := Table.nameColumns header.fields, rows } = .ok (columnKeys header) := by
    unfold columnsOf
    dsimp only
    rw [← columnKeys, absent]
    rfl
  have rows : (records.map fun record => record.fields.map Table.cell).map (CourseRow.ofCells (columnKeys header)) =
      courseRows header records := List.map_map
  simp only [load, h.read, ofTable, columns, rows]
  cases listings (firstRows (courseRows header records)) with
  | error f => simp
  | ok courses => simp [eq_comm, withColumns]

/-- What a catalog lists of first rows. -/
structure Lists (c : Catalog) (rows : List CourseRow) : Prop where
  codes : c.codes = (rows.filterMap (·.code?)).eraseDups
  once : c.codes.Nodup
  trees : c.trees.map (·.1) = c.codes
  entry : ∀ l ∈ c.courses, ∃ r, First rows l.code r ∧ l = r.entry l.code
  malformed : ∀ code, code ∈ c.malformed ↔ ∃ r, First rows code r ∧ r.requirement = none
  untreed : ∀ code ∈ c.malformed, (code, none) ∈ c.trees

theorem mem_malformed {c : Catalog} :
    code ∈ c.malformed ↔ ∃ l ∈ c.courses, l.isMalformed = true ∧ l.code = code := by
  rw [Catalog.malformed, sortTexts, List.mem_mergeSort]
  simp [and_assoc]

/-- The entries of the first rows are what a catalog lists of them. -/
theorem lists_of_courses {c : Catalog} (courses : c.courses = (firstRows rows).map fun row => row.2.entry row.1) :
    Lists c rows := by
  have codes : c.codes = (rows.filterMap (·.code?)).eraseDups := by
    rw [← codes_firstRows, Catalog.codes, courses, List.map_map]
    rfl
  have listed (l : Listing) : l ∈ c.courses ↔ ∃ r, First rows l.code r ∧ l = r.entry l.code := by
    rw [courses, List.mem_map]
    constructor
    · rintro ⟨⟨code, r⟩, hr, rfl⟩
      exact ⟨r, mem_firstRows.1 hr, rfl⟩
    · rintro ⟨r, first, same⟩
      exact ⟨(l.code, r), mem_firstRows.2 first, same.symm⟩
  have unusable {l : Listing} {r : CourseRow} (same : l = r.entry l.code) (bad : l.isMalformed = true) :
      r.requirement = none := by
    rwa [same, CourseRow.isMalformed_entry, Option.isNone_iff_eq_none] at bad
  refine ⟨codes, ?once, by simp [Catalog.trees, Catalog.codes], fun l hl => (listed l).1 hl, fun code => ?malformed,
    fun code hc => ?untreed⟩
  case once =>
    rw [codes, ← Course.distinct_eq_eraseDups]
    exact Course.nodup_distinct _
  case malformed =>
    rw [mem_malformed]
    constructor
    · rintro ⟨l, hl, bad, rfl⟩
      obtain ⟨r, first, same⟩ := (listed l).1 hl
      exact ⟨r, first, unusable same bad⟩
    · rintro ⟨r, first, none⟩
      refine ⟨r.entry code, (listed _).2 ⟨r, first, rfl⟩, ?_, rfl⟩
      rw [CourseRow.isMalformed_entry, none, Option.isNone_none]
  case untreed =>
    obtain ⟨l, hl, bad, rfl⟩ := mem_malformed.1 hc
    obtain ⟨r, first, same⟩ := (listed l).1 hl
    have none : l.prerequisites = none := by
      rw [same, CourseRow.prerequisites_entry, unusable same bad, Option.join_none]
    exact List.mem_map.2 ⟨l, hl, Prod.ext rfl none⟩

/-- A regular text is loaded unless the first row of some code stops the loading. The catalog then lists every code
once, in the order in which the codes come up, and what it says of a code is the entry of the first row with the
code. The malformed courses are those whose prerequisites cannot be used; they have no tree. -/
theorem load_regular (path : String) {text : String} {header : Table.Record} {records : List Table.Record}
    (h : Regular text header records) :
    ((∃ c, (load path (some text)).2 = .ok c) ↔ ∀ code r, First (courseRows header records) code r →
      ¬ r.Stops) ∧
      ∀ c, (load path (some text)).2 = .ok c → Lists c (courseRows header records) := by
  have free : (∀ row ∈ firstRows (courseRows header records), ¬ row.2.Stops) ↔
      ∀ code r, First (courseRows header records) code r → ¬ r.Stops :=
    ⟨fun free code r first => free (code, r) (mem_firstRows.2 first),
      fun free row hrow => free row.1 row.2 (mem_firstRows.1 hrow)⟩
  refine ⟨⟨?stops, fun rows => ⟨_, h.load_eq_ok.2 ⟨_, listings_ok (free.2 rows), rfl⟩⟩⟩,
    fun c loaded => ?_⟩
  case stops =>
    rintro ⟨c, loaded⟩
    obtain ⟨courses, listed, -⟩ := h.load_eq_ok.1 loaded
    exact free.1 (not_stops_of_listings listed)
  obtain ⟨courses, listed, rfl⟩ := h.load_eq_ok.1 loaded
  obtain rfl := Except.ok.inj ((listings_ok (not_stops_of_listings listed)).symm.trans listed)
  exact lists_of_courses (courses_withColumns header _)

/-- A catalog with a row without a code, a second row of a course, credits that are no number, a tree that is no
value and prose that no tree can express. -/
def slips : String :=
  "course_code, Credits ,prereqs,prereq_json\ncs1301,3.0,,\n??,inf,,\nCS 1331,x,CS 1301,[1\nCS 1301,inf,,\n" ++
    "MATH 1113,4,permission,\n"

theorem load_regular_slips : ∃ header records,
    Regular slips header records ∧ (∀ code r, First (courseRows header records) code r → ¬ r.Stops) ∧
      ∃ c, (load "" (some slips)).2 = .ok c ∧ c.codes = ["CS 1301", "CS 1331", "MATH 1113"] ∧
        "MATH 1113" ∈ c.malformed := by
  let header : Table.Record := ⟨1, ["course_code", " Credits ", "prereqs", "prereq_json"]⟩
  let records : List Table.Record :=
    [⟨2, ["cs1301", "3.0", "", ""]⟩, ⟨3, ["??", "inf", "", ""]⟩, ⟨4, ["CS 1331", "x", "CS 1301", "[1"]⟩,
      ⟨5, ["CS 1301", "inf", "", ""]⟩, ⟨6, ["MATH 1113", "4", "permission", ""]⟩]
  have regular : Regular slips header records :=
    ⟨by decide +kernel, by decide +kernel, by decide, by decide +kernel, by decide +kernel⟩
  have listed : (listings (firstRows (courseRows header records))).toOption.isSome = true := by decide +kernel
  obtain ⟨courses, listed⟩ := ok_of_isSome listed
  have free (code : String) (r : CourseRow) (first : First (courseRows header records) code r) : ¬ r.Stops :=
    not_stops_of_listings listed (code, r) (mem_firstRows.2 first)
  obtain ⟨c, loaded⟩ := (load_regular "" regular).1.2 free
  have lists := (load_regular "" regular).2 c loaded
  have codes : ((courseRows header records).filterMap (·.code?)).eraseDups = ["CS 1301", "CS 1331", "MATH 1113"] := by
    decide +kernel
  let last : CourseRow := .ofCells (columnKeys header) [some "MATH 1113", some "4", some "permission", none]
  have first : First (courseRows header records) "MATH 1113" last := by unfold First; decide +kernel
  have unusable : last.requirement.isNone = true := by decide +kernel
  exact ⟨header, records, regular, free, c, loaded, lists.codes.trans codes,
    (lists.malformed _).2 ⟨last, first, Option.isNone_iff_eq_none.1 unusable⟩⟩

/-- Infinite credits in one row keep all courses from being loaded. -/
theorem load_infinite_credits : ∃ header records,
    Regular "course_code,credits\nCS 1301,inf\nCS 1331,3\n" header records ∧
      (load "" (some "course_code,credits\nCS 1301,inf\nCS 1331,3\n")).2 = .error (.value .infinityAsInteger) := by
  refine ⟨⟨1, ["course_code", "credits"]⟩, [⟨2, ["CS 1301", "inf"]⟩, ⟨3, ["CS 1331", "3"]⟩], ?_, rfl⟩
  exact ⟨by decide +kernel, by decide +kernel, by decide, by decide +kernel, by decide +kernel⟩

end Catalog
end DegreePlan
