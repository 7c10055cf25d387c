import DegreePlan.Json.Convert
import DegreePlan.Proofs.Fallible
import DegreePlan.Proofs.Lookup

/-!
# Equal values

Equality of values is equality of their canonical forms. What a value can be used for depends on
its canonical form alone: a value that equals an integer is read as this integer, and a value that
equals a key is a key.
-/

namespace DegreePlan.Json

@[simp] theorem canonical_int (n : Int) : (int n).canonical = int n := by simp [canonical]

@[simp] theorem canonical_str (s : String) : (str s).canonical = str s := by simp [canonical]

theorem same_int {v : Json} {n : Int} : v.same (.int n) = true ↔ v.canonical = .int n := by
  simp [same_iff]

theorem same_symm {a b : Json} (h : a.same b = true) : b.same a = true := same_comm a b ▸ h

theorem same_int_int {m n : Int} : (int m).same (int n) = true ↔ m = n := by simp [same_iff]

/-! ## Use as a key -/

theorem isKey_canonical (v : Json) : v.canonical.isKey = v.isKey := by
  cases v with
  | real x => cases h : Number.integer? x <;> simp [canonical, h, isKey]
  | _ => simp [canonical, isKey]

theorem isKey_of_same {a b : Json} (h : a.same b = true) (hb : b.isKey = true) : a.isKey = true := by
  rw [← isKey_canonical, same_iff.1 h, isKey_canonical, hb]

theorem checkKey_eq_ok {v : Json} {u : Unit} : v.checkKey = .ok u ↔ v.isKey = true := by
  simp [checkKey]

theorem forM_checkKey {vs : List Json} {u : Unit} :
    vs.forM checkKey = .ok u ↔ ∀ v ∈ vs, v.isKey = true := by
  induction vs with
  | nil => exact ⟨fun _ _ h => (List.not_mem_nil h).elim, fun _ => rfl⟩
  | cons v vs ih =>
    change (v.checkKey >>= fun _ => vs.forM checkKey) = .ok u ↔ _
    simp only [bind_eq_ok, checkKey_eq_ok, ih, List.forall_mem_cons, exists_const]

/-! ## Use as a number -/

theorem fraction_of_integer {x : Float} {n : Int} (h : Number.integer? x = some n) :
    Number.truncate? x = some n := by
  unfold Number.integer? at h
  split at h
  · next a d hf =>
    split at h
    · next hd =>
      simp only [beq_iff_eq] at hd
      simp only [Option.some.injEq] at h
      simp only [Number.truncate?, hf, Option.map_some, Option.some.injEq]
      rw [Int.tdiv_eq_ediv_of_dvd (Int.dvd_of_emod_eq_zero hd), h]
    · cases h
  · cases h

theorem parts_of_integer {x : Float} {n : Int} (h : Number.integer? x = some n) :
    ∃ s m e, Number.parts x = .finite s m e := by
  unfold Number.integer? Number.fraction? at h
  cases hp : Number.parts x with
  | finite s m e => exact ⟨s, m, e, rfl⟩
  | _ => simp [hp] at h

theorem canonical_eq_int {v : Json} {n : Int} (h : v.canonical = .int n) :
    v = .int n ∨ (∃ b, v = .bool b ∧ n = if b then 1 else 0) ∨ ∃ x, v = .real x ∧
    Number.integer? x = some n := by
  cases v with
  | int m => simp only [canonical_int] at h; exact .inl h
  | bool b => simp only [canonical, int.injEq] at h; exact .inr (.inl ⟨b, rfl, h.symm⟩)
  | real x =>
    simp only [canonical] at h
    split at h
    · next m hm => exact .inr (.inr ⟨x, rfl, by cases h; exact hm⟩)
    · cases h
  | _ => simp [canonical] at h

/-! ## What is not a number -/

theorem isNaN_canonical (v : Json) : v.canonical.isNaN = v.isNaN := by
  cases v with
  | real x =>
    cases h : Number.integer? x with
    | none => simp only [canonical, h]
    | some n =>
      obtain ⟨s, m, e, hp⟩ := parts_of_integer h
      simp only [canonical, h, isNaN, hp]
  | _ => simp [canonical, isNaN]

theorem isNaN_of_same {a b : Json} (h : a.same b = true) : a.isNaN = b.isNaN := by
  rw [← isNaN_canonical, same_iff.1 h, isNaN_canonical]

/-- Only where both sides are not a number is the same not equal. -/
theorem equals_eq_same {a b : Json} (number : b.isNaN = false) : a.equals b = a.same b := by
  rw [Bool.eq_iff_iff, equals_iff]
  exact ⟨And.right, fun h => ⟨isNaN_of_same h ▸ number, h⟩⟩

theorem same_of_equals {a b : Json} (h : a.equals b = true) : a.same b = true := (equals_iff.1 h).2

theorem isNaN_of_equals {a b : Json} (h : a.equals b = true) : b.isNaN = false :=
  isNaN_of_same (same_of_equals h) ▸ (equals_iff.1 h).1

theorem equals_self {a : Json} : a.equals a = true ↔ a.isNaN = false := by simp [equals]

theorem equals_comm (a b : Json) : a.equals b = b.equals a := by
  cases h : a.same b with
  | true => simp [equals, h, same_comm b a, isNaN_of_same h]
  | false => simp [equals, h, same_comm b a]

/-- No two of the values compare equal. -/
def Apart (values : List Json) : Prop := values.Pairwise fun a b => a.equals b = false

instance (values : List Json) : Decidable (Apart values) :=
  inferInstanceAs (Decidable (values.Pairwise fun a b => a.equals b = false))

@[simp] theorem apart_nil : Apart [] := List.Pairwise.nil

theorem apart_cons {v : Json} {values : List Json} :
    Apart (v :: values) ↔ (∀ w ∈ values, v.equals w = false) ∧ Apart values :=
  List.pairwise_cons

theorem apart_perm {l m : List Json} (h : l.Perm m) : Apart l ↔ Apart m :=
  h.pairwise_iff fun {a b} hab => equals_comm a b ▸ hab

theorem Apart.sublist {l m : List Json} (h : Apart m) (hl : l.Sublist m) : Apart l := List.Pairwise.sublist hl h

/-- No two values compare equal just when none is the same as another, those left out that are not numbers. -/
theorem apart_iff_nodup {values : List Json} :
    Apart values ↔ ((values.map canonical).filter fun v => !v.isNaN).Nodup := by
  rw [Apart, List.Nodup, List.pairwise_filter, List.pairwise_map]
  refine List.Pairwise.iff fun {a b} => ?_
  rw [← Bool.not_eq_true, equals_iff, same_iff, isNaN_canonical, isNaN_canonical, Bool.not_eq_true',
    Bool.not_eq_true']
  exact ⟨fun h number _ same => h ⟨number, same⟩, fun h ⟨number, same⟩ =>
    h number (isNaN_of_same (same_iff.2 same) ▸ number) same⟩

theorem apart_of_nodup {values : List Json} (h : (values.map canonical).Nodup) : Apart values :=
  apart_iff_nodup.2 (h.filter _)

/-- The value is a text or a whole number, as ids are. -/
def IsId : Json → Prop
  | str _ | int _ => True
  | _ => False

instance : DecidablePred IsId
  | str _ | int _ => isTrue trivial
  | null | bool _ | real _ | arr _ | obj _ => isFalse not_false

theorem IsId.isNaN {v : Json} (h : v.IsId) : v.isNaN = false := by cases v <;> first | rfl | exact h.elim

theorem IsId.isKey {v : Json} (h : v.IsId) : v.isKey = true := by cases v <;> first | rfl | exact h.elim

/-- A value that equals an integer is read as this integer. -/
theorem toInteger_of_same {v : Json} {n : Int} (h : v.same (.int n) = true) : v.toInteger = .ok n := by
  rcases canonical_eq_int (same_int.1 h) with rfl | ⟨b, rfl, rfl⟩ | ⟨x, rfl, hx⟩
  · rfl
  · rfl
  · obtain ⟨s, m, e, hp⟩ := parts_of_integer hx
    simp [toInteger, hp, fraction_of_integer hx]

theorem place_of_same {v : Json} {n : Int} (h : v.same (.int n) = true) : (v.place?).isSome = true := by
  rcases canonical_eq_int (same_int.1 h) with rfl | ⟨b, rfl, rfl⟩ | ⟨x, rfl, hx⟩
  · rfl
  · rfl
  · obtain ⟨s, m, e, hp⟩ := parts_of_integer hx
    simp only [place?, hp]
    cases Number.fraction? x <;> rfl

/-- Values that equal integers can be compared. -/
theorem less_of_same {v w : Json} {m n : Int} (hv : v.same (.int m) = true) (hw : w.same (.int n) = true) :
    ∃ b, v.less w = .ok b := by
  obtain ⟨p, hp⟩ := Option.isSome_iff_exists.1 (place_of_same hv)
  obtain ⟨q, hq⟩ := Option.isSome_iff_exists.1 (place_of_same hw)
  refine ⟨p.less q, ?_⟩
  cases v with
  | str => cases hp
  | _ => simp [less, hp, hq]

/-- Sorting changes the order only. -/
theorem perm_of_sortBy {α : Type} {key : α → Json} {items sorted : List α} (h : sortBy key items = .ok sorted) :
    sorted.Perm items := by
  unfold sortBy at h
  split at h
  · cases h; exact .refl _
  · cases h; exact .refl _
  · obtain ⟨-, -, made⟩ := bind_eq_ok.1 h
    rw [← pure_eq_ok.1 made]
    exact List.mergeSort_perm _ _

/-- What can be compared can be sorted. -/
theorem sortBy_ok_of_less {α : Type} {key : α → Json} {items : List α}
    (h : ∀ a ∈ items, ∀ b ∈ items, ∃ less, (key a).less (key b) = .ok less) :
    ∃ sorted, sortBy key items = .ok sorted := by
  unfold sortBy
  split
  · exact ⟨[], rfl⟩
  · exact ⟨[_], rfl⟩
  · next first rest _ =>
    have compared : ∀ l : List α, (∀ b ∈ l, ∃ less, (key first).less (key b) = .ok less) →
        (forIn l PUnit.unit fun x _ => do
          discard (less (key first) (key x))
          pure (ForInStep.yield PUnit.unit) : Except Fault PUnit) = .ok PUnit.unit := by
      intro l hl
      induction l with
      | nil => rfl
      | cons a l ih =>
        obtain ⟨⟨b, hb⟩, hl⟩ := List.forall_mem_cons.1 hl
        rw [List.forIn_cons, hb]
        exact ih hl
    simp only [compared rest fun b hb => h first (by simp) b (by simp [hb]), ok_bind]
    exact ⟨_, rfl⟩

/-- Values that equal integers can be sorted. -/
theorem sortBy_ok {α : Type} {key : α → Json} {items : List α}
    (h : ∀ a ∈ items, ∃ n : Int, (key a).same (.int n) = true) :
    ∃ sorted, sortBy key items = .ok sorted ∧ sorted.Perm items := by
  obtain ⟨sorted, hs⟩ := sortBy_ok_of_less fun a ha b hb => by
    obtain ⟨m, hm⟩ := h a ha
    obtain ⟨n, hn⟩ := h b hb
    exact less_of_same hm hn
  exact ⟨sorted, hs, perm_of_sortBy hs⟩

/-! ## Membership -/

theorem isIn_iff {v : Json} {vs : List Json} : v.isIn vs = true ↔ v.canonical ∈ vs.map canonical := by
  simp only [isIn, List.any_eq_true, same_iff, List.mem_map, eq_comm (a := v.canonical)]

theorem isIn_eq_false {v : Json} {vs : List Json} : v.isIn vs = false ↔ v.canonical ∉ vs.map canonical := by
  rw [← isIn_iff, Bool.not_eq_true]

theorem isIn_congr {v w : Json} (vs : List Json) (h : v.same w = true) : v.isIn vs = w.isIn vs := by
  rw [Bool.eq_iff_iff, isIn_iff, isIn_iff, same_iff.1 h]

theorem isIn_of_mem {v : Json} {vs : List Json} (h : v ∈ vs) : v.isIn vs = true :=
  isIn_iff.2 (List.mem_map_of_mem h)

theorem isIn_append (v : Json) (xs ys : List Json) : v.isIn (xs ++ ys) = (v.isIn xs || v.isIn ys) := List.any_append

theorem foldl_distinct (vs kept : List Json) (v : Json) :
    v.isIn (vs.foldl (fun kept v => if isIn v kept then kept else kept ++ [v]) kept) =
      (v.isIn kept || v.isIn vs) := by
  induction vs generalizing kept with
  | nil => simp [isIn]
  | cons w vs ih =>
    rw [List.foldl_cons, ih]
    split
    · next hw =>
      have : v.same w = true → v.isIn kept = true := fun h => isIn_congr kept h ▸ hw
      simp only [isIn, List.any_cons] at this ⊢
      grind
    · simp [isIn, Bool.or_assoc]

/-- Dropping repetitions keeps the members. -/
@[simp] theorem isIn_distinct (v : Json) (vs : List Json) : v.isIn (distinct vs) = v.isIn vs := by
  rw [distinct, foldl_distinct]; rfl

theorem mem_foldl_distinct {vs kept : List Json} {v : Json}
    (h : v ∈ vs.foldl (fun kept v => if isIn v kept then kept else kept ++ [v]) kept) : v ∈ kept ∨ v ∈ vs := by
  induction vs generalizing kept with
  | nil => exact .inl h
  | cons w vs ih =>
    rcases ih h with h | h
    · dsimp only at h
      split at h
      · exact .inl h
      · simp only [List.mem_append, List.mem_singleton] at h
        exact h.imp_right (fun h => by simp [h])
    · exact .inr (by simp [h])

theorem mem_of_mem_distinct {vs : List Json} {v : Json} (h : v ∈ distinct vs) : v ∈ vs := by
  simpa using mem_foldl_distinct h

/-! ## Parts -/

theorem canonicalItems_eq_map (items : List Json) : canonicalItems items = items.map canonical := by
  induction items with
  | nil => rfl
  | cons v vs ih => rw [canonicalItems, ih, List.map_cons]

theorem canonicalFields_eq_map (fields : List (String × Json)) :
    canonicalFields fields = fields.map fun (n, v) => (n, v.canonical) := by
  induction fields with
  | nil => rfl
  | cons f fields ih => rw [canonicalFields, ih, List.map_cons]

theorem canonical_eq_null {v : Json} (h : v.canonical = .null) : v = .null := by
  cases v with
  | real x => simp only [canonical] at h; split at h <;> cases h
  | _ => simp_all [canonical]

theorem canonical_eq_str {v : Json} {s : String} (h : v.canonical = .str s) : v = .str s := by
  cases v with
  | real x => simp only [canonical] at h; split at h <;> cases h
  | _ => simp_all [canonical]

theorem text?_eq_some {v : Json} {s : String} : v.text? = some s ↔ v = .str s := by
  cases v <;> simp [text?]

theorem text?_canonical (v : Json) : v.canonical.text? = v.text? := by
  refine Option.ext fun s => ?_
  rw [text?_eq_some, text?_eq_some]
  exact ⟨canonical_eq_str, fun h => by rw [h, canonical_str]⟩

/-- What equals a list is a list of as many items, which equal the items of the list one by one. -/
theorem canonical_eq_arr {v : Json} {items : List Json} (h : v.canonical = (arr items).canonical) :
    ∃ vs, v = .arr vs ∧ vs.map canonical = items.map canonical := by
  cases v with
  | arr vs => exact ⟨vs, rfl, by simpa [canonical, canonicalItems_eq_map] using h⟩
  | real x => simp only [canonical] at h; split at h <;> cases h
  | _ => simp [canonical] at h

/-- What equals an object of fields with different names is an object that has equal fields under these names
    and no others. -/
theorem canonical_eq_obj {v : Json} {fields : List (String × Json)} (h : v.canonical = (obj fields).canonical)
    (different : (fields.map (·.1)).Nodup) :
    ∃ fields', v = .obj fields' ∧
      ∀ name, (fields'.lookup name).map canonical = (fields.lookup name).map canonical := by
  cases v with
  | obj fields' =>
    refine ⟨fields', rfl, fun name => ?_⟩
    simp only [canonical, obj.injEq, canonicalFields_eq_map] at h
    have perm : (fields'.map fun (n, v) => (n, v.canonical)).Perm (fields.map fun (n, v) => (n, v.canonical)) :=
      (List.mergeSort_perm _ fun a b : String × Json => decide (a.1 ≤ b.1)).symm.trans
        (by rw [h]; exact List.mergeSort_perm _ _)
    rw [← lookup_map_row, ← lookup_map_row]
    exact lookup_perm perm (by simpa [Function.comp_def] using different) name
  | real x => simp only [canonical] at h; split at h <;> cases h
  | _ => simp [canonical] at h

end DegreePlan.Json
