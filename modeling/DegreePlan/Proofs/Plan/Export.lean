import DegreePlan.Proofs.Listing
import DegreePlan.Proofs.Sync.Recovery

/-!
# Exported plans

A plan that was edited from the empty plan can be exported, and a new plan takes the export. The one thing
that an import does not keep is a limit of no credits at all, which it takes for no limit.
-/

namespace DegreePlan

/-- A course whose code and title are texts and whose id is a text or a whole number. -/
def Entry.Portable (e : Entry) : Prop := e.Textual ∧ ((∃ s, e.id = .str s) ∨ ∃ n, e.id = .int n)

theorem Entry.Portable.isId {e : Entry} (h : e.Portable) : e.id.IsId := by
  rcases h.2 with ⟨s, hs⟩ | ⟨n, hn⟩
  · rw [hs]
    trivial
  · rw [hn]
    trivial

/-- A semester of a season, with a whole number as its limit and portable courses. -/
structure Semester.Portable (s : Semester) : Prop where
  dated : s.Dated
  limit : ∃ n : Int, s.maxCredits = .int n
  courses : ∀ e ∈ s.courses, e.Portable

/-- The usual limit is no other limit, except where it takes the place of none. -/
theorem Semester.Portable.limited_iff {s : Semester} (h : s.Portable) :
    s.canonical = s.limited.canonical ↔ s.maxCredits ≠ .int 0 := by
  obtain ⟨n, hn⟩ := h.limit
  by_cases hz : n = 0 <;> simp [canonical, limited, hn, hz, Json.orElse, Json.isBlank]

namespace Plan

open Sync

variable {owner : Option String} {p q : Plan}

/-! ## Edited plans -/

/-- The changes by hand: semesters with whole numbers as limits, portable courses, and what is done with them. -/
def Change.Edits : Change → Prop
  | addSemester _ _ maxCredits => ∃ n : Int, maxCredits = .int n
  | addCourse e => e.Portable
  | clear | load _ | importText _ => False
  | _ => True

/-- The plans that are edited from the empty plan. Some of the changes may be refused. -/
inductive Edited (owner : Option String) : Plan → Prop where
  | empty : Edited owner { owner }
  | change {p : Plan} {c : Change} (h : Edited owner p) (edits : c.Edits) : Edited owner (p.after c)

theorem Edited.changes (h : Edited owner p) {cs : List Change} (edits : ∀ c ∈ cs, c.Edits) :
    Edited owner (cs.foldl after p) := by
  induction cs generalizing p with
  | nil => exact h
  | cons c cs ih =>
    obtain ⟨hc, hcs⟩ := List.forall_mem_cons.1 edits
    exact ih (h.change hc) hcs

theorem Edited.reachable (h : Edited owner p) : Reachable owner p := by
  induction h with
  | empty => exact .empty
  | change _ _ ih => exact ih.change _

/-- A semester that is added is of a season and has the limit that was given. -/
theorem addSemester_new {season year maxCredits : Json} {s : Semester}
    (h : p.addSemester season year maxCredits = .ok (s, q)) :
    q = p ∨ (q = { p with semesters := p.semesters ++ [s] }.touch ∧ s.Dated ∧
      s.maxCredits = maxCredits ∧ s.courses = []) := by
  simp only [addSemester, bind_eq_ok] at h
  obtain ⟨id, hid, h⟩ := h
  split at h
  · cases h
    exact .inl rfl
  · simp only [bind_eq_ok, pure_eq_ok] at h
    obtain ⟨y, -, h⟩ := h
    cases h
    refine .inr ⟨rfl, ?_, rfl, rfl⟩
    simp only [Term.idOf, bind_eq_ok] at hid
    obtain ⟨-, -, hid⟩ := hid
    split at hid
    · cases hid
    · next t ht =>
      obtain ⟨text, htext, named⟩ := Option.bind_eq_some_iff.1 ht
      cases season <;> cases htext
      simp [Semester.Dated, TermName.term?, Json.asText, named]

/-- Every semester of the plan is portable. -/
def Portable (p : Plan) : Prop := ∀ s ∈ p.semesters, s.Portable

namespace Portable

theorem setCourses (h : p.Portable) {id : Int} {cs : List Entry} (hc : ∀ e ∈ cs, e.Portable) :
    (p.setCourses id cs).Portable := by
  intro s hs
  obtain ⟨t, ht, rfl⟩ := mem_setCourses hs
  refine ⟨(h t ht).dated, (h t ht).limit, fun e he => ?_⟩
  simp only [courseSet] at he
  split at he
  · exact hc e he
  · exact (h t ht).courses e he

theorem exchange (h : p.Portable) {id : Json} {s : Semester} {e r : Entry} (hs : s ∈ p.semesters)
    (he : e ∈ s.courses) (hr : SameCourse e r) : (p.setCourses s.id (Plan.exchange id r s.courses)).Portable := by
  obtain ⟨hid, hcode, htitle, -, -⟩ := hr
  refine h.setCourses fun c hc => ?_
  rcases mem_exchange hc with rfl | hc
  · have course := (h s hs).courses e he
    exact ⟨⟨hcode ▸ course.1.1, htitle ▸ course.1.2⟩, hid ▸ course.2⟩
  · exact (h s hs).courses c hc

/-- A change by hand keeps a plan portable. -/
theorem make (h : p.Portable) {c : Change} (edits : c.Edits) (hq : c.make p = .ok q) : q.Portable := by
  cases c <;> simp only [Change.make, map_eq_ok, Prod.exists] at hq
  case addSemester =>
    obtain ⟨s, _, hq, rfl⟩ := hq
    rcases addSemester_new hq with rfl | ⟨rfl, dated, limit, courses⟩
    · exact h
    · intro t ht
      rcases List.mem_append.1 ht with ht | ht
      · exact h t ht
      · obtain rfl := List.mem_singleton.1 ht
        exact ⟨dated, limit ▸ edits, fun e he => absurd (courses ▸ he) List.not_mem_nil⟩
  case generate =>
    obtain ⟨r, _, hq, rfl⟩ := hq
    obtain ⟨-, ⟨-, rfl⟩ | ⟨-, ts, -, -, active, rfl⟩⟩ := generate_eq_ok hq
    · exact h
    · intro s hs
      obtain ⟨t, -, rfl⟩ := List.mem_map.1 hs
      exact ⟨Semester.dated_ofTerm t _, ⟨18, rfl⟩, fun e he => absurd he List.not_mem_nil⟩
  case addCourse e =>
    obtain ⟨s, hs, -, -, rfl⟩ := addCourse_eq_ok hq
    refine setCourses h fun c hc => ?_
    rcases List.mem_append.1 hc with hc | hc
    · exact (h s (semester?_some hs).1).courses c hc
    · rw [List.mem_singleton.1 hc]
      exact edits
  case removeCourse =>
    obtain ⟨r, _, hq, rfl⟩ := hq
    rcases removeCourse_eq_ok hq with ⟨-, rfl⟩ | ⟨s, e, hs, -, -, rfl⟩
    · exact h
    · exact setCourses h fun c hc => (h s (semester?_some hs).1).courses c (List.mem_of_mem_filter hc)
  case moveCourse =>
    obtain ⟨r, _, hq, rfl⟩ := hq
    obtain ⟨s, t, e, hs, ht, he, ⟨-, rfl⟩ | ⟨-, rfl⟩⟩ := moveCourse_eq_ok hq
    · exact h
    · -- the moved course differs from the one in its old semester in the semester alone
      have source := (h s (semester?_some hs).1).courses
      refine setCourses (setCourses h fun c hc => source c (List.mem_of_mem_filter hc)) fun c hc => ?_
      rcases List.mem_append.1 hc with hc | hc
      · exact (h t (semester?_some ht).1).courses c hc
      · rw [List.mem_singleton.1 hc]
        exact source e (Plan.find?_some he).1
  case setStatus =>
    obtain ⟨r, _, hq, rfl⟩ := hq
    obtain ⟨s, e, hs, he, hr, rfl⟩ := setStatus_eq_ok hq
    exact exchange h (semester?_some hs).1 (Plan.find?_some he).1 hr
  case setGrade =>
    obtain ⟨r, _, hq, rfl⟩ := hq
    obtain ⟨s, e, hs, he, hr, rfl⟩ := setGrade_eq_ok hq
    exact exchange h (semester?_some hs).1 (Plan.find?_some he).1 hr
  case clearPlanned =>
    obtain ⟨r, _, hq, rfl⟩ := hq
    obtain ⟨-, ⟨-, rfl⟩ | ⟨-, rfl⟩⟩ := clearPlanned_eq_ok hq
    · exact h
    · intro s hs
      obtain ⟨t, ht, rfl⟩ := mem_withCourses.1 hs
      exact ⟨(h t ht).dated, (h t ht).limit, fun e he => (h t ht).courses e (List.mem_of_mem_filter he)⟩
  case clear | load | importText => exact edits.elim

end Portable

theorem Edited.portable (h : Edited owner p) : p.Portable := by
  induction h with
  | empty => nofun
  | @change p c _ edits ih =>
    unfold after
    split
    · next q hq => exact ih.make edits hq
    · exact ih

/-! ## The import of an export -/

/-- What a plan is read back as: its semesters by time, each with a limit of credits. -/
def imported (user : Option String) (p : Plan) : Plan :=
  { owner := user, semesters := (sorted p.semesters).map fun s : Semester => s.limited.settled, version := 1 }

theorem Edited.importText (h : Edited owner p) (averaged : Averaged p) (user : Option String) (time : String) :
    ∃ document, p.exportAt time = .ok document ∧ ∀ text, Json.parse? text = some document →
      ({ owner := user } : Plan).importText (.str text) = .ok (true, [], p.imported user) := by
  have portable := h.portable
  obtain ⟨json, hj⟩ := toJson_of_dated (fun s hs => (portable s hs).dated) averaged
  have keyed : Keyed p := fun e he => by
    obtain ⟨s, hs, he⟩ := mem_entries.1 he
    exact ((portable s hs).courses e he).isId.isKey
  have readable : ∀ s ∈ p.semesters, s.Readable := fun s hs => by
    obtain ⟨t, ht⟩ := h.reachable.terms s hs
    exact ⟨by rw [← ht, Term.ofId_id]; rfl, (portable s hs).limit, fun e he => ((portable s hs).courses e he).1⟩
  have separate : Separate p := h.reachable.valid.separate fun e he => by
    obtain ⟨s, hs, he⟩ := mem_entries.1 he
    exact ((portable s hs).courses e he).isId.isNaN
  have load := load_toJson h.reachable.valid keyed separate readable hj { owner := user }
  refine ⟨_, by rw [exportAt, hj, ok_bind]; rfl, fun text parsed => ?_⟩
  have semesters :
      semestersOf? (.obj [("semesters", json), ("exported_at", .str time), ("version", .str exportVersion)]) =
      some json := rfl
  simp only [Plan.importText, readExport, parsed, semesters, load]
  rfl

theorem Edited.listed (h : Edited owner p) (user : Option String) :
    p.limited.SameListing (p.imported user) := by
  refine sameListing_settled (fun s hs => ?_) (valid_limited h.reachable.valid) ?_
  · obtain ⟨t, ht, rfl⟩ := List.mem_map.1 hs
    exact (h.portable t ht).dated
  · have limited := sorted_map (g := Semester.limited) (l := p.semesters) fun _ _ => rfl
    have settled := sorted_map (g := fun s : Semester => s.limited.settled) (l := sorted p.semesters) fun _ _ => rfl
    rw [imported, settled, sorted_sorted, Plan.limited, limited, List.map_map]
    rfl

theorem Edited.listed_iff (h : Edited owner p) (user : Option String) :
    p.SameListing (p.imported user) ↔ ∀ s ∈ p.semesters, s.maxCredits ≠ .int 0 := by
  obtain ⟨-, dated, same⟩ := sameListing_iff.1 (h.listed user)
  have limited := sorted_map (g := Semester.limited) (l := p.semesters) fun _ _ => rfl
  rw [Plan.limited, limited, List.map_map] at same
  have portable := h.portable
  have own : ∀ s ∈ p.semesters, s.Dated := fun s hs => (portable s hs).dated
  -- the import lists the limited semesters, so it lists the plan if limiting changes none of them
  rw [sameListing_iff, and_iff_right own, and_iff_right dated, ← same, List.map_inj_left]
  simp only [mem_sorted]
  exact forall₂_congr fun s hs => (portable s hs).limited_iff

/-- An edited plan can be exported, and a new plan that imports the text lists what it lists, save that a
    limit of no credits becomes the usual one. So exactly plans without such a limit are kept as they are. -/
theorem export_import (h : Edited owner p) (averaged : Averaged p) (user : Option String) (time : String) :
    ∃ document, p.exportAt time = .ok document ∧ ∀ text, Json.parse? text = some document →
      ∃ q, ({ owner := user } : Plan).importText (.str text) = .ok (true, [], q) ∧
        p.limited.SameListing q ∧
        (p.SameListing q ↔ ∀ s ∈ p.semesters, s.maxCredits ≠ .int 0) := by
  obtain ⟨document, exported, taken⟩ := h.importText averaged user time
  exact ⟨document, exported, fun text parsed => ⟨_, taken text parsed, h.listed user, h.listed_iff user⟩⟩

/-- A course that was begun is read back from the text of the export, and so is its semester. -/
theorem export_import_begun :
    let e : Entry := { id := .str "c-1", code := .str "CS 1301", title := .str "", credits := 3, status := .planned
                       semester := .int 202400, grade := none }
    let p := [Change.addSemester (.str "Fall") (.int 2024) (.int 15), .addCourse e,
      .setStatus (.int 202400) (.str "c-1") (.str "in-progress") .null].foldl Plan.after
        ({ owner := some "user-a" } : Plan)
    let text := "\x7b\"semesters\":\x7b\"202400\":\x7b\"id\":202400,\"year\":2024,\"season\":\"Fall\",\"courses\":[" ++
      "\x7b\"id\":\"c-1\",\"code\":\"CS 1301\",\"title\":\"\",\"credits\":3,\"status\":\"in-progress\"," ++
      "\"grade\":null,\"semester_id\":202400\x7d],\"total_credits\":3,\"gpa\":0.0,\"credit_load\":\"light\"," ++
      "\"max_credits\":15,\"is_active\":false\x7d\x7d,\"exported_at\":\"\",\"version\":\"1.0\"\x7d"
    (∃ document, p.exportAt "" = .ok document ∧ Json.parse? text = some document) ∧
      ∃ q, ({ owner := some "user-b" } : Plan).importText (.str text) = .ok (true, [], q) ∧ p.SameListing q := by
  intro e p text
  have edited : Edited (some "user-a") p := Edited.empty.changes <| by
    simp only [List.forall_mem_cons, List.not_mem_nil, false_implies, implies_true, and_true]
    exact ⟨⟨15, rfl⟩, ⟨⟨⟨_, rfl⟩, _, rfl⟩, .inl ⟨_, rfl⟩⟩, trivial⟩
  have limits : ∀ s ∈ p.semesters, s.maxCredits ≠ .int 0 := by decide +kernel
  have parsed : (p.exportAt "").toOption = Json.parse? text := by decide +kernel
  obtain ⟨document, exported, taken⟩ := export_import edited (by decide +kernel) (some "user-b") ""
  rw [exported] at parsed
  obtain ⟨q, accepted, -, same⟩ := taken text parsed.symm
  exact ⟨⟨document, exported, parsed.symm⟩, q, accepted, same.2 limits⟩

/-- A limit of no credits is not read back from the text of the export: the usual limit takes its place. -/
theorem export_import_no_credits :
    let p := [Change.addSemester (.str "Fall") (.int 2024) (.int 0)].foldl Plan.after
      ({ owner := some "user-a" } : Plan)
    let text :=
      "\x7b\"semesters\":\x7b\"202400\":\x7b\"id\":202400,\"year\":2024,\"season\":\"Fall\",\"courses\":[]," ++
      "\"total_credits\":0,\"gpa\":0.0,\"credit_load\":\"light\",\"max_credits\":0,\"is_active\":false\x7d\x7d," ++
      "\"exported_at\":\"\",\"version\":\"1.0\"\x7d"
    Edited (some "user-a") p ∧ Averaged p ∧
      (∃ document, p.exportAt "" = .ok document ∧ Json.parse? text = some document) ∧
      ∃ q, ({ owner := some "user-b" } : Plan).importText (.str text) = .ok (true, [], q) ∧ ¬ p.SameListing q := by
  intro p text
  have edited : Edited (some "user-a") p :=
    Edited.empty.change (c := .addSemester (.str "Fall") (.int 2024) (.int 0)) ⟨0, rfl⟩
  have averaged : Averaged p := by decide +kernel
  have parsed : (p.exportAt "").toOption = Json.parse? text := by decide +kernel
  have lost : ¬ p.SameListing (p.imported (some "user-b")) := by decide +kernel
  obtain ⟨document, exported, taken⟩ := edited.importText averaged (some "user-b") ""
  rw [exported] at parsed
  exact ⟨edited, averaged, ⟨document, exported, parsed.symm⟩, _, taken text parsed.symm, lost⟩

end Plan
end DegreePlan
