import DegreePlan.Json.Convert
import DegreePlan.Proofs.Text.Digit
import DegreePlan.Service.Request
import Mathlib.Algebra.Group.Nat.Defs

/-!
# What is read can be written

Whole numbers are written up to a number of digits, and texts with more digits are not read. So a value that was read
can be written, and so can every whole number that it is converted to.
-/

namespace DegreePlan

/-! ## Digits -/

/-- Digits stand for less than the power of ten of their number. -/
theorem Text.digitsToNat_lt (cs : List Char) : digitsToNat cs < 10 ^ cs.length := by
  have value_le (c : Char) : (digitValue? c).getD 0 ≤ 9 := by
    cases h : digitValue? c with
    | none => exact Nat.zero_le 9
    | some d => exact digitValue?_le h
  have longer (n : Nat) : cs.foldl (fun n c => 10 * n + (digitValue? c).getD 0) n < (n + 1) * 10 ^ cs.length := by
    induction cs generalizing n with
    | nil => simp
    | cons c cs ih =>
      calc _ < (10 * n + (digitValue? c).getD 0 + 1) * 10 ^ cs.length := ih _
        _ ≤ ((n + 1) * 10) * 10 ^ cs.length := Nat.mul_le_mul_right _ (by have := value_le c; omega)
        _ = (n + 1) * 10 ^ (c :: cs).length := by rw [List.length_cons, Nat.pow_succ, Nat.mul_assoc, Nat.mul_comm 10]
  simpa [digitsToNat] using longer 0

namespace Number

/-- The number has no more digits than are written. -/
def Short (n : Int) : Prop := n.natAbs < Nat.pow 10 maxIntegerDigits

theorem short_neg {n : Int} : Short (-n) ↔ Short n := by simp only [Short, Int.natAbs_neg]

theorem short_of_lt_ten {n : Int} {k : Nat} (h : n.natAbs < 10 ^ k) (hk : k ≤ maxIntegerDigits) : Short n := by
  unfold Short
  -- the power is not to be computed
  generalize maxIntegerDigits = m at hk ⊢
  exact Nat.lt_of_lt_of_le h (Nat.pow_le_pow_right (Nat.succ_pos 9) hk)

theorem short_of_lt_two {n : Int} {k : Nat} (h : n.natAbs < 2 ^ k) (hk : k ≤ maxIntegerDigits) : Short n :=
  short_of_lt_ten (Nat.lt_of_lt_of_le h (Nat.pow_le_pow_left (by decide) k)) hk

/-- An integer that is read from a text is short. -/
theorem short_of_readInteger {s : String} {n : Int} (h : readInteger s = .value n) : Short n := by
  rcases sign : splitSign (bare s) with ⟨negative, body⟩
  simp only [readInteger, sign] at h
  split at h
  · cases h
  · next digits _ =>
    split at h
    · cases h
    · split at h
      · cases h
      · next bound =>
        obtain rfl := IntegerReading.value.inj h
        have short : Short (Text.digitsToNat digits : Int) :=
          short_of_lt_ten (Text.digitsToNat_lt digits) (Nat.not_lt.1 bound)
        split
        · exact short_neg.2 short
        · exact short

theorem parts_finite {x : Float} {negative : Bool} {m : Nat} {e : Int} (h : parts x = .finite negative m e) :
    m < 2 ^ 53 ∧ e ≤ 971 := by
  unfold parts at h
  dsimp only at h
  have fraction : x.toBits.toNat % Nat.pow 2 52 < 2 ^ 52 := Nat.mod_lt _ (by decide)
  have exponent : x.toBits.toNat / Nat.pow 2 52 % Nat.pow 2 11 < 2 ^ 11 := Nat.mod_lt _ (by decide)
  have implicit : Nat.pow 2 52 = 2 ^ 52 := rfl
  split at h
  · split at h <;> cases h
  · next finite =>
    rw [beq_iff_eq] at finite
    split at h
    · cases h
      exact ⟨by omega, by omega⟩
    · cases h
      exact ⟨by omega, by omega⟩

/-- The whole part of a float is short. -/
theorem short_of_truncate {x : Float} {n : Int} (h : truncate? x = some n) : Short n := by
  unfold truncate? fraction? at h
  split at h
  · next negative m e finite =>
    obtain ⟨small, le⟩ := parts_finite finite
    obtain rfl := Option.some.inj h
    have scaled : (if 0 ≤ e then m * Nat.pow 2 e.toNat else m) < 2 ^ (53 + e.toNat) := by
      rw [Nat.pow_add]
      split
      · exact Nat.mul_lt_mul_of_pos_right small (Nat.two_pow_pos _)
      · exact Nat.lt_of_lt_of_le small (Nat.le_mul_of_pos_right _ (Nat.two_pow_pos _))
    refine short_of_lt_two (k := 53 + e.toNat) ?_ (Nat.le_trans (m := 1024) (by omega) (by decide))
    rw [Int.natAbs_tdiv]
    refine Nat.lt_of_le_of_lt (Nat.div_le_self ..) ?_
    split
    · rwa [Int.natAbs_neg]
    · exact scaled
  · cases h

end Number

namespace Json

open Number

@[simp] theorem isWritable_bool (b : Bool) : (bool b).isWritable = true := rfl

@[simp] theorem isWritable_real (x : Float) : (real x).isWritable = true := rfl

@[simp] theorem isWritable_str (s : String) : (str s).isWritable = true := rfl

theorem isWritable_int {n : Int} : (int n).isWritable = true ↔ Short n := by
  rw [isWritable, decide_eq_true_iff, Short]

theorem areWritable_iff {items : List Json} : areWritable items = true ↔ ∀ v ∈ items, v.isWritable = true := by
  induction items with
  | nil => simp [areWritable]
  | cons v items ih => simp [areWritable, ih]

theorem fieldsWritable_iff {fields : List (String × Json)} :
    fieldsWritable fields = true ↔ ∀ f ∈ fields, f.2.isWritable = true := by
  induction fields with
  | nil => simp [fieldsWritable]
  | cons f fields ih => simp [fieldsWritable, ih]

theorem isWritable_arr {items : List Json} :
    (arr items).isWritable = true ↔ ∀ v ∈ items, v.isWritable = true := by
  rw [isWritable, areWritable_iff]

theorem isWritable_obj {fields : List (String × Json)} :
    (obj fields).isWritable = true ↔ ∀ f ∈ fields, f.2.isWritable = true := by rw [isWritable, fieldsWritable_iff]

/-- A field of a value that can be written can be written. -/
theorem isWritable_lookup {fields : List (String × Json)} (h : (obj fields).isWritable = true)
    {name : String} {v : Json} (found : fields.lookup name = some v) : v.isWritable = true := by
  obtain ⟨l, m, rfl, -⟩ := List.lookup_eq_some_iff.1 found
  exact isWritable_obj.1 h (name, v) (by simp)

theorem isWritable_fieldOf {fields : List (String × Json)} (h : (obj fields).isWritable = true) (name : String) :
    (fieldOf fields name).isWritable = true := by
  unfold fieldOf
  cases found : fields.lookup name with
  | none => rfl
  | some v => exact isWritable_lookup h found

theorem isWritable_put {fields : List (String × Json)} {v : Json} (h : (obj fields).isWritable = true)
    (hv : v.isWritable = true) (name : String) : (obj (put name v fields)).isWritable = true := by
  rw [isWritable_obj] at h ⊢
  induction fields with
  | nil => simpa [put] using hv
  | cons f fields ih =>
    obtain ⟨hf, hl⟩ := List.forall_mem_cons.1 h
    unfold put
    split
    · exact List.forall_mem_cons.2 ⟨hv, hl⟩
    · exact List.forall_mem_cons.2 ⟨hf, ih hl⟩

/-- The whole number that a value stands for is short if the value can be written. -/
theorem short_of_toInteger {v : Json} {n : Int} (hv : v.isWritable = true) (h : v.toInteger = .ok n) : Short n := by
  unfold toInteger at h
  split at h
  · next b =>
    obtain rfl := Except.ok.inj h
    exact short_of_lt_ten (k := 1) (by cases b <;> decide) (by decide)
  · obtain rfl := Except.ok.inj h
    exact isWritable_int.1 hv
  · next x =>
    split at h
    · cases h
    · cases h
    · obtain rfl := Except.ok.inj h
      cases whole : truncate? x with
      | none => exact short_of_lt_ten (k := 1) (by decide) (by decide)
      | some n => exact short_of_truncate whole
  · split at h
    · next read =>
      obtain rfl := Except.ok.inj h
      exact short_of_readInteger read
    · cases h
    · cases h
  · cases h

/-! ## Reading -/

variable {cs rest : List Char} {v : Json}

theorem isWritable_of_readNumber {negative : Bool} (h : readNumber negative cs = some (v, rest)) :
    v.isWritable = true := by
  unfold readNumber at h
  dsimp only at h
  split at h
  all_goals
    split at h
    · cases h
    · split at h
      · split at h
        · next n read =>
          cases h
          exact isWritable_int.2 (short_of_readInteger read)
        · cases h
      · simp only [Option.map_eq_some_iff, Prod.mk.injEq] at h
        obtain ⟨x, -, rfl, -⟩ := h
        rfl

theorem isWritable_of_readScalar (h : readScalar cs = some (v, rest)) : v.isWritable = true := by
  have word {w : List Char} {u : Json} (hu : u.isWritable = true)
    (hw : (afterWord? w cs).map (u, ·) = some (v, rest)) :
      v.isWritable = true := by
    simp only [Option.map_eq_some_iff, Prod.mk.injEq] at hw
    obtain ⟨_, -, rfl, -⟩ := hw
    exact hu
  unfold readScalar at h
  split at h
  iterate 6 exact word rfl h
  · exact isWritable_of_readNumber h
  · exact isWritable_of_readNumber h

/-- What the readers of values, items and fields give can be written; the induction is on their fuel. -/
theorem isWritable_of_read (fuel : Nat) :
    (∀ cs v rest, readValue fuel cs = some (v, rest) → v.isWritable = true) ∧
      (∀ cs items rest, readItems fuel cs = some (items, rest) → (arr items).isWritable = true) ∧
      ∀ known cs fields rest, (obj known).isWritable = true → readFields fuel known cs = some (fields, rest) →
        (obj fields).isWritable = true := by
  induction fuel with
  | zero => exact ⟨nofun, nofun, nofun⟩
  | succ fuel ih =>
    obtain ⟨value, items, fields⟩ := ih
    refine ⟨fun cs v rest h => ?value, fun cs l rest h => ?items, fun known cs l rest hk h => ?fields⟩
    case value =>
      unfold readValue at h
      split at h
      · simp only [Option.map_eq_some_iff, Prod.mk.injEq] at h
        obtain ⟨_, -, rfl, -⟩ := h
        rfl
      · split at h
        · cases h; rfl
        · simp only [Option.map_eq_some_iff, Prod.mk.injEq] at h
          obtain ⟨⟨l, r⟩, read, rfl, -⟩ := h
          exact items _ _ _ read
      · split at h
        · cases h; rfl
        · simp only [Option.map_eq_some_iff, Prod.mk.injEq] at h
          obtain ⟨⟨l, r⟩, read, rfl, -⟩ := h
          exact fields _ _ _ _ rfl read
      · exact isWritable_of_readScalar h
    case items =>
      unfold readItems at h
      obtain ⟨⟨v, r⟩, first, h⟩ := Option.bind_eq_some_iff.1 h
      dsimp only at h
      split at h
      · simp only [Option.map_eq_some_iff, Prod.mk.injEq] at h
        obtain ⟨⟨vs, _⟩, more, rfl, -⟩ := h
        exact isWritable_arr.2 (List.forall_mem_cons.2 ⟨value _ _ _ first, isWritable_arr.1 (items _ _ _ more)⟩)
      · cases h
        exact isWritable_arr.2 (List.forall_mem_cons.2 ⟨value _ _ _ first, List.forall_mem_nil _⟩)
      · cases h
    case fields =>
      unfold readFields at h
      obtain ⟨⟨name, _⟩, -, h⟩ := Option.bind_eq_some_iff.1 h
      obtain ⟨⟨v, r⟩, first, h⟩ := Option.bind_eq_some_iff.1 h
      dsimp only at h
      have known' := isWritable_put hk (value _ _ _ first) name
      split at h
      · exact fields _ _ _ _ known' h
      · cases h; exact known'
      · cases h

theorem isWritable_of_parse {s : String} (h : parse? s = some v) : v.isWritable = true := by
  unfold parse? at h
  dsimp only at h
  split at h
  · next read =>
    split at h
    · cases h; exact (isWritable_of_read _).1 _ _ _ read
    · cases h
  · cases h

end Json

/-- The body of a request can be written. -/
theorem Request.isWritable_json (r : Request) : r.json.isWritable = true := by
  unfold json
  split
  · cases read : Json.parse? (String.ofList (Text.dropMark r.body.toList)) with
    | none => rfl
    | some v => exact Json.isWritable_of_parse read
  · rfl

end DegreePlan
