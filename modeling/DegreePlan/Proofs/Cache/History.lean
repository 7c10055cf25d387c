import DegreePlan.Proofs.Cache
import Mathlib.Data.Set.Function

/-!
# What is read back

What a load gives is decided by what was last put into the user's file, whoever did it. A saved plan is given to the
user it was saved for, and to nobody else who finds it under their name. A save that breaks off has put nothing
there. A text counts as a plan if it is an object with the digest of the user. A text of no value is thrown away. On
any other value that is no object a load breaks off, and on nothing else.
-/

namespace DegreePlan.Cache

variable {c d : Cache} {user other : String}

/-- A use of the cache, or of its files from outside. -/
inductive Use where
  | save (user : String) (semesters : Json)
  | load (user : String)
  | clear (user : String)
  | clearAll
  /-- A text is put into the file of a user. -/
  | write (user content : String)
  /-- The file of a user, if there is one, is put in the place of another's. -/
  | copy (source target : String)

namespace Use

/-- The users whose files it is about. -/
def users : Use → List String
  | save user _ | load user | clear user | write user _ => [user]
  | copy source target => [source, target]
  | clearAll => []

/-- It puts something into the file of the user or takes the file away. A load is not meant, which keeps all that can be
read, and neither is a save that breaks off. -/
def alters (user : String) : Use → Bool
  | save target semesters => semesters.isWritable && target == user
  | clear target | write target _ | copy _ target => target == user
  | clearAll => true
  | load _ => false

end Use

/-- The cache after a use. That a load breaks off is no matter of the files, and neither is that a plan cannot be
written. -/
def use (c : Cache) : Use → Except Fault Cache
  | .save user semesters =>
    let saved := c.save user semesters
    if semesters.isWritable then saved.result.map fun _ => saved.cache else .ok saved.cache
  | .load user => .ok (c.load user).cache
  | .clear user => c.clear user
  | .clearAll => .ok c.clearAll
  | .write user content => c.write (fileName user) (.text content)
  | .copy source target =>
    match c.file? source with
    | some file => c.write (fileName target) file
    | none => .ok c

/-! ## Pages -/

/-- What was put into a file. -/
inductive Page where
  | saved (user : String) (semesters : Json)
  | written (content : String)

namespace Page

def file : Page → CacheFile
  | saved user semesters => .plan (userKey user) semesters
  | written content => .text content

/-- The file is a text of a value. -/
def readable : Page → Bool
  | saved .. => true
  | written content => (Json.parse? content).isSome

@[simp] theorem isSome_contents? (page : Page) : (CacheFile.contents? page.file).isSome = page.readable := by
  cases page with
  | saved => rfl
  | written => rw [file, CacheFile.contents?, Option.isSome_map]; rfl

end Page

/-- What the files of the users are made from after one more use, told without digests and names. -/
def turn (pages : String → Option Page) : Use → String → Option Page
  | .save user semesters =>
    if semesters.isWritable then Function.update pages user (some (.saved user semesters)) else pages
  | .load user => Function.update pages user ((pages user).filter (·.readable))
  | .clear user => Function.update pages user none
  | .clearAll => fun _ => none
  | .write user content => Function.update pages user (some (.written content))
  | .copy source target => Function.update pages target (pages source <|> pages target)

/-- What the files of the users are made from after all uses of an empty cache. -/
def pagesAfter (uses : List Use) : String → Option Page := uses.foldl turn fun _ => none

/-- A saved plan stays until the file is altered. -/
theorem turn_saved {pages : String → Option Page} {semesters : Json} {u : Use}
    (h : pages user = some (.saved other semesters)) (kept : u.alters user = false) :
    turn pages u user = some (.saved other semesters) := by
  cases u with
  | load u =>
    by_cases same : user = u
    · rw [turn, ← same, Function.update_self, h]; rfl
    · rw [turn, Function.update_of_ne same, h]
  | clearAll => cases kept
  | save u v =>
    cases hv : v.isWritable with
    | false => simp [turn, hv, h]
    | true =>
      have other : user ≠ u := fun same => by simp [Use.alters, hv, same] at kept
      rw [turn, if_pos hv, Function.update_of_ne other, h]
  | clear u | write u | copy _ u =>
    rw [turn, Function.update_of_ne (fun same => by simp [Use.alters, same] at kept), h]

theorem pagesAfter_saved {semesters : Json} (written : semesters.isWritable = true) (before : List Use)
    {later : List Use} (kept : ∀ u ∈ later, u.alters user = false) :
    pagesAfter (before ++ .save user semesters :: later) user = some (.saved user semesters) := by
  rw [pagesAfter, List.foldl_append, List.foldl_cons]
  refine List.foldlRecOn later turn (motive := fun pages => pages user = some (.saved user semesters))
    ?_ fun pages h u hu => turn_saved h (kept u hu)
  rw [turn, if_pos written, Function.update_self]

/-! ## Files -/

/-- The files of these users are made from these pages. -/
structure Shows (users : Set String) (pages : String → Option Page) (c : Cache) : Prop where
  free : c.Free
  file : ∀ user ∈ users, c.file? user = (pages user).map Page.file
  named : ∀ user ∈ users, ∀ owner semesters, pages user = some (.saved owner semesters) → owner ∈ users

variable {users : Set String} {pages : String → Option Page}

theorem shows_empty (users : Set String) : Shows users (fun _ => none) {} := ⟨by simp [Free], fun _ _ => rfl, nofun⟩

namespace Shows

/-- An operation on one file turns one page, as long as no two users have one file. -/
theorem update (h : Shows users pages c) (apart : Set.InjOn userKey users) {page : Option Page} (known : user ∈ users)
    (named : ∀ owner semesters, page = some (.saved owner semesters) → owner ∈ users) (free : d.Free)
    (here : d.file? user = page.map Page.file)
    (there : ∀ other, fileName other ≠ fileName user → d.file? other = c.file? other) :
    Shows users (Function.update pages user page) d where
  free := free
  file other ho := by
    by_cases same : other = user
    · rw [same, Function.update_self, here]
    · rw [Function.update_of_ne same, there other fun name => same (apart ho known (fileName_inj.1 name)),
        h.file other ho]
  named other ho := by
    by_cases same : other = user
    · rw [same, Function.update_self]; exact named
    · rw [Function.update_of_ne same]; exact h.named other ho

/-- Every use goes through, and the files are made from the pages that it turns. -/
theorem use (h : Shows users pages c) (apart : Set.InjOn userKey users) {u : Use}
    (within : ∀ w ∈ u.users, w ∈ users) : ∃ d, c.use u = .ok d ∧ Shows users (turn pages u) d := by
  cases u with
  | save user semesters =>
    have known : user ∈ users := within user (by simp [Use.users])
    cases written : semesters.isWritable with
    | true =>
      obtain ⟨d, hd, free, here, there⟩ := save_ok h.free user written
      refine ⟨d, by rw [Cache.use, if_pos written, hd]; rfl, ?_⟩
      rw [turn, if_pos written]
      exact h.update apart known (by rintro _ _ ⟨⟩; exact known) free here there
    | false =>
      obtain ⟨d, hd, free, kept⟩ := save_breaks_off h.free user written
      refine ⟨d, by simp [Cache.use, written, hd], ?_⟩
      simp only [turn, written, Bool.false_eq_true, if_false]
      exact ⟨free, fun other ho => (kept other).trans (h.file other ho), h.named⟩
  | load user =>
    have known : user ∈ users := within user (by simp [Use.users])
    refine ⟨_, rfl, h.update apart known (fun owner semesters hp => ?_) (load_free h.free) ?_ fun other ho => ?_⟩
    · exact h.named user known owner semesters (Option.eq_some_of_filter_eq_some hp)
    · rw [file?_load, if_pos rfl, h.file user known]
      cases pages user with
      | none => rfl
      | some page => simp [Option.filter_some, apply_ite]
    · rw [file?_load, if_neg ho]
  | clear user =>
    obtain ⟨d, hd, free, here, there⟩ := clear_ok h.free user
    exact ⟨d, hd, h.update apart (within user (by simp [Use.users])) nofun free here there⟩
  | clearAll => exact ⟨_, rfl, (clearAll_ok h.free).1, fun user _ => (clearAll_ok h.free).2 user, nofun⟩
  | write user content =>
    obtain ⟨d, hd, free, here, there⟩ := writeFile_ok h.free user (.text content)
    exact ⟨d, hd, h.update apart (within user (by simp [Use.users])) nofun free here there⟩
  | copy source target =>
    have known : source ∈ users := within source (by simp [Use.users])
    have known' : target ∈ users := within target (by simp [Use.users])
    have found := h.file source known
    cases hp : pages source with
    | none =>
      refine ⟨c, by rw [Cache.use, found, hp]; rfl, ?_⟩
      have same : turn pages (.copy source target) = pages := by rw [turn, hp]; exact Function.update_eq_self ..
      rwa [same]
    | some page =>
      obtain ⟨d, hd, free, here, there⟩ := writeFile_ok h.free target page.file
      refine ⟨d, by rw [Cache.use, found, hp]; exact hd, ?_⟩
      rw [turn, hp]
      exact h.update apart known'
        (fun owner semesters hs => h.named source known owner semesters (hp.trans hs)) free here there

/-- So does a run of them. -/
theorem run (h : Shows users pages c) (apart : Set.InjOn userKey users) {uses : List Use}
    (within : ∀ u ∈ uses, ∀ w ∈ u.users, w ∈ users) :
    ∃ d, uses.foldlM Cache.use c = .ok d ∧ Shows users (uses.foldl turn pages) d := by
  induction uses generalizing c pages with
  | nil => exact ⟨c, rfl, h⟩
  | cons u uses ih =>
    obtain ⟨d, hd, hs⟩ := h.use apart (within u (by simp))
    obtain ⟨e, he, hs⟩ := ih hs fun v hv => within v (by simp [hv])
    exact ⟨e, by rw [List.foldlM_cons, hd, ok_bind, he], hs⟩

/-! ## Loads -/

/-- A load gives a plan of the user: one that was saved, or one in a text with the digest of the user. -/
theorem returns (h : Shows users pages c) (apart : Set.InjOn userKey users) (known : user ∈ users) {v : Json} :
    (c.load user).result = .ok (some v) ↔
      (∃ semesters, pages user = some (.saved user semesters) ∧ v = semesters.orElse (.obj [])) ∨
      ∃ content fields, pages user = some (.written content) ∧ Json.parse? content = some (.obj fields) ∧
        Json.fieldOf fields "user_key" = .str (userKey user) ∧
        v = (Json.fieldOf fields "semesters").orElse (.obj []) := by
  simp only [load_eq_some, contents?_eq_ok, h.file user known, Option.map_eq_some_iff]
  constructor
  · rintro ⟨_, semesters, ⟨page, hp, rfl⟩, ⟨digest, hf, hd⟩ | ⟨content, fields, hf, hj, hk, rfl⟩, rfl⟩
    · cases page with
      | saved owner v =>
        obtain ⟨rfl, rfl⟩ : userKey owner = digest ∧ v = semesters := by simpa [Page.file] using hf
        have own : owner = user := apart (h.named user known owner v hp) known (by simpa using hd.symm)
        exact .inl ⟨v, own ▸ hp, rfl⟩
      | written => cases hf
    · cases page with
      | saved => cases hf
      | written => cases hf; exact .inr ⟨content, fields, hp, hj, hk, rfl⟩
  · rintro (⟨semesters, hp, rfl⟩ | ⟨content, fields, hp, hj, hk, rfl⟩)
    · exact ⟨_, semesters, ⟨_, hp, rfl⟩, .inl ⟨_, rfl, rfl⟩, rfl⟩
    · exact ⟨_, _, ⟨_, hp, rfl⟩, .inr ⟨content, fields, rfl, hj, hk, rfl⟩, rfl⟩

/-- A load breaks off on a text of a value that is no object, and on nothing else. -/
theorem breaks (h : Shows users pages c) (known : user ∈ users) {f : Fault} :
    (c.load user).result = .error f ↔ ∃ content v, pages user = some (.written content) ∧
      Json.parse? content = some v ∧ v.fields? = none ∧ f = .value (.noFields v.kindName) := by
  simp only [load_eq_error, contents?_eq_error, h.file user known, Option.map_eq_some_iff]
  constructor
  · rintro ⟨_, ⟨page, hp, rfl⟩, content, v, hf, rest⟩
    cases page with
    | saved => cases hf
    | written => cases hf; exact ⟨content, v, hp, rest⟩
  · rintro ⟨content, v, hp, rest⟩
    exact ⟨_, ⟨_, hp, rfl⟩, content, v, rfl, rest⟩

end Shows

/-- Whatever was done to the files of users whose digests differ, a load gives what was saved for the user last, if it
could be written and their file was not altered since. It gives nothing but that or what a text with the user's own
digest says, and it breaks off just when the file was last filled with a text of a value that is no object. -/
theorem load_decided (apart : Set.InjOn userKey users) {uses : List Use}
    (within : ∀ u ∈ uses, ∀ w ∈ u.users, w ∈ users) (known : user ∈ users) :
    ∃ c, uses.foldlM use {} = .ok c ∧
      (∀ f, (c.load user).result = .error f ↔ ∃ content v, pagesAfter uses user = some (.written content) ∧
        Json.parse? content = some v ∧ v.fields? = none ∧ f = .value (.noFields v.kindName)) ∧
      (∀ v, (c.load user).result = .ok (some v) ↔
        (∃ semesters, pagesAfter uses user = some (.saved user semesters) ∧ v = semesters.orElse (.obj [])) ∨
        ∃ content fields, pagesAfter uses user = some (.written content) ∧
          Json.parse? content = some (.obj fields) ∧
          Json.fieldOf fields "user_key" = .str (userKey user) ∧
          v = (Json.fieldOf fields "semesters").orElse (.obj [])) ∧
      ∀ before semesters later, uses = before ++ .save user semesters :: later → semesters.isWritable = true →
        (∀ u ∈ later, u.alters user = false) →
        (c.load user).result = .ok (some (semesters.orElse (.obj []))) := by
  obtain ⟨c, run, shows⟩ := (shows_empty users).run apart within
  refine ⟨c, run, fun f => shows.breaks known, fun v => shows.returns apart known, ?_⟩
  rintro before semesters later rfl written kept
  exact (shows.returns apart known).2 (.inl ⟨semesters, pagesAfter_saved written before kept, rfl⟩)

/-- The user still reads the plan, and who was given a copy of it reads nothing. -/
theorem load_decided_copied :
    let uses : List Use := [.write "user-b" "null", .save "user-a" (.obj [("202400", .null)]), .copy "user-a" "user-b"]
    ∃ c, uses.foldlM use {} = .ok c ∧ (c.load "user-a").result = .ok (some (.obj [("202400", .null)])) ∧
      (c.load "user-b").result = .ok none := by
  intro uses
  have apart : Set.InjOn userKey {"user-a", "user-b"} := by
    have differ : userKey "user-a" ≠ userKey "user-b" := by decide +kernel
    rintro a (rfl | rfl) b (rfl | rfl) same
    exacts [rfl, absurd same differ, absurd same.symm differ, rfl]
  have within : ∀ u ∈ uses, ∀ w ∈ u.users, w ∈ ({"user-a", "user-b"} : Set String) := by
    simp [uses, Use.users]
  obtain ⟨c, run, -, -, kept⟩ := load_decided apart within (Set.mem_insert "user-a" _)
  obtain ⟨d, run', breaks, returns, -⟩ :=
    load_decided apart within (Set.mem_insert_of_mem "user-a" (Set.mem_singleton "user-b"))
  obtain rfl : c = d := Except.ok.inj (run.symm.trans run')
  have copied : pagesAfter uses "user-b" = some (.saved "user-a" (.obj [("202400", .null)])) := rfl
  refine ⟨c, run, kept [.write "user-b" "null"] _ [.copy "user-a" "user-b"] rfl (by decide)
    (by simp [Use.alters]), ?_⟩
  cases hr : (c.load "user-b").result with
  | error f => simpa [copied] using (breaks f).1 hr
  | ok found =>
    cases found with
    | none => rfl
    | some v => simpa [copied] using (returns v).1 hr

/-- A list in the file of the user makes the load break off. -/
theorem load_breaks_off : ∃ c, [.save "user-a" (.obj []), .write "user-a" "[]"].foldlM use {} = .ok c ∧
    ¬ ∃ r, (c.load "user-a").result = .ok r := by
  have written : (Json.obj []).isWritable = true := by decide
  obtain ⟨b, hb, free, -⟩ := save_ok (c := {}) (by simp [Free]) "user-a" written
  obtain ⟨c, hc, -, here, -⟩ := writeFile_ok free "user-a" (.text "[]")
  have list : Json.parse? "[]" = some (.arr []) := by decide +kernel
  have broken : (c.load "user-a").result = .error (.value (.noFields "list")) :=
    load_eq_error.2 ⟨_, here, contents?_eq_error.2 ⟨_, _, rfl, list, rfl, rfl⟩⟩
  refine ⟨c, ?_, ?_⟩
  · have saved : use {} (.save "user-a" (.obj [])) = .ok b := by rw [use, if_pos written, hb]; rfl
    rw [List.foldlM_cons, saved, ok_bind, List.foldlM_cons, use, hc]
    rfl
  · rintro ⟨r, hr⟩
    cases broken.symm.trans hr

end DegreePlan.Cache
