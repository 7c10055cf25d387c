import DegreePlan.Cache
import DegreePlan.Proofs.Fallible
import DegreePlan.Proofs.Json.Equality
import DegreePlan.Proofs.Lookup

/-!
# Files of the cache

Saving and clearing touch the file of their user only, and what is loaded for a user depends on no
other file. Two users share a file just when their names have one digest.
-/

namespace DegreePlan.Cache

variable {c : Cache} {user : String}

/-- The file of a user. -/
def file? (c : Cache) (user : String) : Option CacheFile := c.files.lookup (fileName user)

/-- No plain file stands in the way of the directory. -/
def Free (c : Cache) : Prop := c.directory ≠ .blocked

instance (c : Cache) : Decidable c.Free :=
  match h : c.directory with
  | .blocked => isFalse (· h)
  | .absent | .files _ => isTrue (by simp [Free, h])

theorem lookup_filter (name other : String) (l : List (String × CacheFile)) :
    (l.filter (·.1 != name)).lookup other = if other = name then none else l.lookup other := by
  rw [lookup_filter_key (· != name)]
  by_cases h : other = name <;> simp [h]

theorem lookup_putFile (name other : String) (file : CacheFile) (l : List (String × CacheFile)) :
    (putFile name file l).lookup other = if other = name then some file else l.lookup other := by
  induction l with
  | nil => exact lookup_cons_ite name other file []
  | cons f l ih =>
    obtain ⟨n, f⟩ := f
    unfold putFile
    by_cases hn : n = name
    · rw [if_pos (by simp [hn]), lookup_cons_ite, lookup_cons_ite, hn]
      split <;> rfl
    · rw [if_neg (by simp [hn]), lookup_cons_ite, lookup_cons_ite, ih]
      by_cases ho : other = n
      · rw [if_pos ho, if_pos ho, if_neg (ho ▸ hn)]
      · rw [if_neg ho, if_neg ho]

theorem fileName_inj {other : String} : fileName other = fileName user ↔ userKey other = userKey user := by
  simp [fileName]

/-- Nothing that is being written has the name of a file. -/
theorem draftName_ne (user other : String) : fileName other ≠ draftName user := fun h => by
  have last := congrArg (·.toList.getLast?) h
  simp [fileName, draftName] at last

/-! ## Operations -/

theorem remove_ok (h : c.Free) (name : String) :
    ∃ d, c.remove name = .ok d ∧ d.Free ∧ d.files = c.files.filter (·.1 != name) := by
  unfold remove files Free at *
  split
  · next hd => exact absurd hd h
  · next hd => exact ⟨c, rfl, h, by simp [hd]⟩
  · next hd => exact ⟨_, rfl, by simp, by simp [hd]⟩

theorem write_ok (h : c.Free) (name : String) (file : CacheFile) :
    ∃ d, c.write name file = .ok d ∧ d.Free ∧
      ∀ other, d.files.lookup other = if other = name then some file else c.files.lookup other := by
  refine ⟨{ directory := .files (putFile name file c.files) }, ?_, by simp [Free], fun other => lookup_putFile ..⟩
  unfold write
  split
  · next hd => exact absurd hd h
  · rfl

theorem writeFile_ok (h : c.Free) (user : String) (file : CacheFile) :
    ∃ d, c.write (fileName user) file = .ok d ∧ d.Free ∧ d.file? user = some file ∧
      ∀ other, fileName other ≠ fileName user → d.file? other = c.file? other := by
  obtain ⟨d, hd, hf, hl⟩ := write_ok h (fileName user) file
  exact ⟨d, hd, hf, (hl _).trans (if_pos rfl), fun other ho => (hl _).trans (if_neg ho)⟩

/-- A save puts the plan in the file of its user and leaves the files of others. -/
theorem save_ok (h : c.Free) (user : String) {semesters : Json} (written : semesters.isWritable = true) :
    ∃ d, c.save user semesters = { cache := d, result := .ok () } ∧ d.Free ∧
      d.file? user = some (.plan (userKey user) semesters) ∧
      ∀ other, fileName other ≠ fileName user → d.file? other = c.file? other := by
  obtain ⟨w, hw, hwf, here, there⟩ := writeFile_ok h user (.plan (userKey user) semesters)
  obtain ⟨d, hd, hf, hl⟩ := remove_ok hwf (draftName user)
  have undrafted (other : String) : d.file? other = w.file? other := by
    rw [file?, hl, lookup_filter, if_neg (draftName_ne user other), file?]
  refine ⟨d, ?_, hf, (undrafted user).trans here, fun other ho => (undrafted other).trans (there other ho)⟩
  simp only [save, if_pos written, hw, ok_bind, hd]

/-- A save of what is too long to be written breaks off, and it leaves the files of all users. -/
theorem save_breaks_off (h : c.Free) (user : String) {semesters : Json} (long : semesters.isWritable = false) :
    ∃ d, c.save user semesters = { cache := d, result := .error (.value .integerTooLongToWrite) } ∧ d.Free ∧
      ∀ other, d.file? other = c.file? other := by
  obtain ⟨d, hd, hf, hl⟩ := write_ok h (draftName user) .draft
  refine ⟨d, ?_, hf, fun other => (hl _).trans (if_neg (draftName_ne user other))⟩
  simp only [save, long, Bool.false_eq_true, if_false, hd]

/-- Where a plain file stands in the way of the directory, nothing can be saved. -/
theorem save_blocked (h : c.directory = .blocked) (user : String) (semesters : Json) :
    c.save user semesters = { cache := c, result := .error (.access .directoryBlocked) } := by
  simp only [save, write, h, error_bind]
  split <;> rfl

/-- A save leaves the files of others, however it ends. -/
theorem save_frame (h : c.Free) (user : String) (semesters : Json) : (c.save user semesters).cache.Free ∧
    ∀ other, fileName other ≠ fileName user → (c.save user semesters).cache.file? other = c.file? other := by
  cases written : semesters.isWritable with
  | true =>
    obtain ⟨d, hd, free, -, others⟩ := save_ok h user written
    rw [hd]
    exact ⟨free, others⟩
  | false =>
    obtain ⟨d, hd, free, kept⟩ := save_breaks_off h user written
    rw [hd]
    exact ⟨free, fun other _ => kept other⟩

/-- How a save ends and the file of its user after it depend on the file of this user alone. -/
theorem save_congr {d : Cache} (hc : c.Free) (hd : d.Free) (h : c.file? user = d.file? user) (semesters : Json) :
    (c.save user semesters).result = (d.save user semesters).result ∧
      (c.save user semesters).cache.Free ∧ (d.save user semesters).cache.Free ∧
      (c.save user semesters).cache.file? user = (d.save user semesters).cache.file? user := by
  cases written : semesters.isWritable with
  | true =>
    obtain ⟨c', hc', freeC, savedC, -⟩ := save_ok hc user written
    obtain ⟨d', hd', freeD, savedD, -⟩ := save_ok hd user written
    rw [hc', hd']
    exact ⟨rfl, freeC, freeD, savedC.trans savedD.symm⟩
  | false =>
    obtain ⟨c', hc', freeC, keptC⟩ := save_breaks_off hc user written
    obtain ⟨d', hd', freeD, keptD⟩ := save_breaks_off hd user written
    rw [hc', hd']
    exact ⟨rfl, freeC, freeD, (keptC user).trans (h.trans (keptD user).symm)⟩

/-- A user whose file was cleared has none, and whoever has another file keeps it. -/
theorem clear_ok (h : c.Free) (user : String) :
    ∃ d, c.clear user = .ok d ∧ d.Free ∧ d.file? user = none ∧
      ∀ other, fileName other ≠ fileName user → d.file? other = c.file? other := by
  obtain ⟨d, hd, hf, hl⟩ := remove_ok h (fileName user)
  refine ⟨d, hd, hf, ?_, fun other ho => ?_⟩
  · rw [file?, hl, lookup_filter, if_pos rfl]
  · rw [file?, hl, lookup_filter, if_neg ho]
    rfl

/-- No user has a file after all have been cleared. -/
theorem clearAll_ok (h : c.Free) : c.clearAll.Free ∧ ∀ user, c.clearAll.file? user = none := by
  obtain ⟨directory⟩ := c
  cases directory with
  | absent => exact ⟨h, fun _ => rfl⟩
  | blocked => exact absurd rfl h
  | files files =>
    refine ⟨nofun, fun user => (lookup_filter_key (! namePrefix.isPrefixOf ·) files _).trans (if_neg ?_)⟩
    simp [String.isPrefixOf, fileName]

/-! ## Loads -/

/-- What is loaded for a user depends on the file of this user alone. -/
theorem load_congr {d : Cache} (hc : c.Free) (hd : d.Free) (h : c.file? user = d.file? user) :
    (c.load user).result = (d.load user).result ∧ (c.load user).cache.Free ∧ (d.load user).cache.Free ∧
      (c.load user).cache.file? user = (d.load user).cache.file? user := by
  unfold file? at h
  simp only [load, h]
  split
  · exact ⟨rfl, hc, hd, h⟩
  · split
    · exact ⟨rfl, by simp [Free], by simp [Free], by simp [file?, files, lookup_filter]⟩
    · exact ⟨rfl, hc, hd, h⟩
    · split
      · exact ⟨rfl, hc, hd, h⟩
      · exact ⟨rfl, hc, hd, h⟩

theorem contents?_eq_ok {file : CacheFile} {key semesters : Json} :
    CacheFile.contents? file = some (.ok (key, semesters)) ↔
      (∃ digest, file = .plan digest semesters ∧ key = .str digest) ∨
      ∃ content fields, file = .text content ∧ Json.parse? content = some (.obj fields) ∧
        Json.fieldOf fields "user_key" = key ∧ Json.fieldOf fields "semesters" = semesters := by
  cases file with
  | plan digest v => simp [CacheFile.contents?, eq_comm, and_comm]
  | draft => simp [CacheFile.contents?]
  | text content =>
    simp only [CacheFile.contents?, Option.map_eq_some_iff, reduceCtorEq, false_and, exists_false, false_or,
      CacheFile.text.injEq, exists_and_left, exists_eq_left']
    constructor
    · rintro ⟨v, hv, h⟩
      cases v <;> simp_all [Json.fields?]
    · rintro ⟨fields, hv, rfl, rfl⟩
      exact ⟨.obj fields, hv, rfl⟩

theorem contents?_eq_error {file : CacheFile} {f : Fault} :
    CacheFile.contents? file = some (.error f) ↔ ∃ content v, file = .text content ∧
      Json.parse? content = some v ∧
      v.fields? = none ∧ f = .value (.noFields v.kindName) := by
  cases file with
  | plan | draft => simp [CacheFile.contents?]
  | text content =>
    simp only [CacheFile.contents?, Option.map_eq_some_iff, CacheFile.text.injEq, exists_and_left, exists_eq_left']
    refine exists_congr fun v => and_congr_right fun _ => ?_
    cases v.fields? <;> simp [eq_comm]

theorem load_eq_some {v : Json} :
    (c.load user).result = .ok (some v) ↔ ∃ file semesters, c.file? user = some file ∧
    CacheFile.contents? file = some (.ok (.str (userKey user), semesters)) ∧ v = semesters.orElse (.obj []) := by
  unfold load file?
  dsimp only
  split
  · next hf => simp [hf]
  · next file hf =>
    simp only [hf, Option.some.injEq, exists_and_left, exists_eq_left']
    split
    · next hr => simp [hr]
    · next hr => simp [hr]
    · next key semesters hr =>
      have own : (key.text? == some (userKey user)) = true ↔ key = .str (userKey user) := by
        rw [beq_iff_eq, Json.text?_eq_some]
      split
      · next h => simp [hr, own.1 h, eq_comm]
      · next h => simp [hr, mt own.2 h]

theorem load_eq_error {f : Fault} : (c.load user).result = .error f ↔
    ∃ file, c.file? user = some file ∧ CacheFile.contents? file = some (.error f) := by
  unfold load file?
  dsimp only
  split
  · next hf => simp [hf]
  · next file hf =>
    simp only [hf, Option.some.injEq, exists_eq_left']
    split
    · next hr => simp [hr]
    · next hr => simp [hr]
    · next hr => split <;> simp [hr]

/-- What was saved for a user is loaded. -/
theorem load_saved {semesters : Json} (h : c.file? user = some (.plan (userKey user) semesters)) :
    (c.load user).result = .ok (some (semesters.orElse (.obj []))) :=
  load_eq_some.2 ⟨_, semesters, h, rfl, rfl⟩

/-- Nothing is loaded for a user who has no file. -/
theorem load_none (h : c.file? user = none) : (c.load user).result = .ok none := by
  unfold file? at h
  simp [load, h]

theorem load_free (hc : c.Free) : (c.load user).cache.Free := (load_congr hc hc rfl).2.1

/-- A load takes the file of its user away if it is no text of a value. -/
theorem cache_load (c : Cache) (user : String) : (c.load user).cache =
    if (c.file? user).all (CacheFile.contents? · |>.isSome) then c
    else { directory := .files (c.files.filter (·.1 != fileName user)) } := by
  unfold load file?
  dsimp only
  split
  · next hf => rw [hf]; rfl
  · next file hf =>
    rw [hf, Option.all_some]
    split
    · next hr => rw [hr]; rfl
    · next hr => rw [hr]; rfl
    · next hr => rw [hr]; split <;> rfl

theorem free_load : (c.load user).cache.Free ↔ c.Free := by
  refine ⟨fun after blocked => ?_, load_free⟩
  have absent : c.file? user = none := by rw [file?, files, blocked]; rfl
  rw [cache_load, absent, Option.all_none, if_pos rfl] at after
  exact after blocked

/-- A load leaves the files of others. -/
theorem file?_load (c : Cache) (user other : String) : (c.load user).cache.file? other =
    if fileName other = fileName user then (c.file? other).filter (CacheFile.contents? · |>.isSome)
    else c.file? other := by
  rw [cache_load]
  by_cases ho : fileName other = fileName user
  · have same : c.file? user = c.file? other := by rw [file?, file?, ho]
    rw [if_pos ho, same]
    cases hf : c.file? other with
    | none => exact hf
    | some file =>
      rw [Option.all_some, Option.filter_some]
      split
      · exact hf
      · rw [file?, files, lookup_filter, if_pos ho]
  · rw [if_neg ho]
    split
    · rfl
    · exact (lookup_filter ..).trans (if_neg ho)

/-- A load brings no file back. -/
theorem load_absent {other : String} (h : c.file? other = none) : (c.load user).cache.file? other = none := by
  rw [file?_load, h]
  split <;> rfl

end DegreePlan.Cache
