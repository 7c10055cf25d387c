import Mathlib.Data.List.Nodup
import DegreePlan.Proofs.Fallible
import DegreePlan.Term

/-!
# Terms in time

Terms are ordered by time, and every term has an id of its own. A range of terms runs forward, so
no term stands in it twice.
-/

namespace DegreePlan

theorem Season.ofText_text (s : Season) : Season.ofText? s.text = some s := by cases s <;> rfl

namespace Term

theorem before_iff {s t : Term} :
    s.before t = true ↔ s.year < t.year ∨ (s.year = t.year ∧ s.season.index < t.season.index) := by
  simp [before]

theorem before_irrefl (t : Term) : t.before t = false := by
  rw [← Bool.not_eq_true, before_iff]; omega

theorem before_trans {s t u : Term} (h : s.before t = true) (k : t.before u = true) : s.before u = true := by
  rw [before_iff] at *; omega

theorem before_total (s t : Term) : !t.before s || !s.before t := by
  rw [Bool.or_eq_true, Bool.not_eq_true', Bool.not_eq_true', ← Bool.not_eq_true, ← Bool.not_eq_true,
    before_iff, before_iff]
  omega

theorem not_before_trans {s t u : Term} (h : t.before s = false) (k : u.before t = false) :
    u.before s = false := by
  rw [← Bool.not_eq_true, before_iff] at *; omega

theorem index_inj {s t : Season} (h : s.index = t.index) : s = t := by
  cases s <;> cases t <;> first | rfl | cases h

/-- Two terms neither of which is before the other are the same. -/
theorem eq_of_not_before {s t : Term} (h : t.before s = false) (k : s.before t = false) : s = t := by
  rw [← Bool.not_eq_true, before_iff] at *
  obtain ⟨a, y⟩ := s
  obtain ⟨b, z⟩ := t
  have hy : y = z := by simp only at h k; omega
  have hs : a.index = b.index := by simp only at h k; omega
  rw [hy, index_inj hs]

theorem before_next (t : Term) : t.before t.next = true := by
  rw [before_iff]
  obtain ⟨s, y⟩ := t
  cases s
  · exact .inr ⟨rfl, Nat.lt_succ_self _⟩
  · exact .inr ⟨rfl, Nat.lt_succ_self _⟩
  · exact .inl (Int.lt_succ y)

/-! ## Ids -/

theorem ofId_id (t : Term) : ofId? t.id = some t := by
  obtain ⟨s, y⟩ := t
  have hm : (Term.id ⟨s, y⟩).fmod 100 = s.code := by
    rw [Int.fmod_eq_emod_of_nonneg _ (by decide)]; cases s <;> simp only [Term.id, Season.code] <;> omega
  have hd : (Term.id ⟨s, y⟩).fdiv 100 = y := by
    rw [Int.fdiv_eq_ediv_of_nonneg _ (by decide)]; cases s <;> simp only [Term.id, Season.code] <;> omega
  rw [ofId?, hm, hd]
  cases s <;> rfl

theorem id_inj {s t : Term} (h : s.id = t.id) : s = t := by
  have := ofId_id s
  rw [h, ofId_id t] at this
  exact (Option.some.inj this).symm

theorem code_of_ofCode {n : Int} {s : Season} (h : Season.ofCode? n = some s) : s.code = n := by
  unfold Season.ofCode? at h
  split at h <;> cases h <;> rfl

/-- The id of a term is that of its season and its year. -/
theorem idOf_term (t : Term) : idOf (.str t.season.text) (.int t.year) = .ok t.id := by
  obtain ⟨season, year⟩ := t
  cases season <;> rfl

/-- The id of a season and a year is that of a term. -/
theorem idOf_eq_ok {season year : Json} {i : Int} (h : idOf season year = .ok i) : ∃ t : Term, t.id = i := by
  simp only [idOf, bind_eq_ok] at h
  obtain ⟨u, -, h⟩ := h
  split at h
  · cases h
  · simp only [bind_eq_ok, pure_eq_ok] at h
    obtain ⟨y, -, h⟩ := h
    exact ⟨_, h⟩

theorem id_ofId {i : Int} {t : Term} (h : ofId? i = some t) : t.id = i := by
  rw [ofId?, Int.fmod_eq_emod_of_nonneg _ (by decide), Int.fdiv_eq_ediv_of_nonneg _ (by decide)] at h
  obtain ⟨s, hs, rfl⟩ := Option.map_eq_some_iff.1 h
  have hm : s.code = i % 100 := code_of_ofCode hs
  simp only [Term.id]
  omega

/-! ## Ranges -/

theorem mem_through {last t u : Term} {limit buffer : Nat} (h : u ∈ through last limit buffer t) :
    u = t ∨ t.before u = true := by
  induction limit generalizing buffer t with
  | zero => simp [through] at h
  | succ limit ih =>
    have step : ∀ b, u ∈ through last limit b t.next → t.before u = true := fun b hb =>
      (ih hb).elim (fun e => e ▸ before_next t) (before_trans (before_next t))
    unfold through at h
    split at h
    · exact (List.mem_cons.1 h).imp_right (step _)
    · split at h
      · exact .inl (by simpa using h)
      · exact (List.mem_cons.1 h).imp_right (step _)

/-- The terms of a range run forward in time. -/
theorem pairwise_through (last : Term) (limit buffer : Nat) (t : Term) :
    (through last limit buffer t).Pairwise fun s u => s.before u = true := by
  induction limit generalizing buffer t with
  | zero => simp [through]
  | succ limit ih =>
    have step : ∀ b, (t :: through last limit b t.next).Pairwise fun s u => s.before u = true := fun b =>
      List.pairwise_cons.2 ⟨fun u hu => (mem_through hu).elim (fun e => e ▸ before_next t)
        (before_trans (before_next t)), ih b t.next⟩
    unfold through
    split
    · exact step _
    · split
      · simp
      · exact step _

theorem through_ne_nil (last : Term) (limit buffer : Nat) (t : Term) : through last (limit + 1) buffer t ≠ [] := by
  unfold through; split
  · simp
  · split <;> simp

/-- Terms that run forward in time have ids of their own. -/
theorem nodup_ids {ts : List Term} (h : ts.Pairwise fun s u => s.before u = true) : (ts.map (·.id)).Nodup := by
  rw [List.nodup_map_iff_inj_on]
  · exact fun s _ t _ hst => id_inj hst
  · exact h.imp fun {s t} hst he => by rw [he, before_irrefl] at hst; cases hst

/-- A range holds a term and runs forward in time. -/
theorem range_ok {start graduation buffer : Json} {ts : List Term} (h : range start graduation buffer = .ok ts) :
    ts ≠ [] ∧ ts.Pairwise fun s u => s.before u = true := by
  simp only [range, bind_eq_ok] at h
  obtain ⟨first, -, last, -, last', -, first', -, h⟩ := h
  split at h
  · simp [bind_eq_ok] at h
  · simp only [bind_eq_ok, pure_eq_ok] at h
    obtain ⟨n, -, rfl⟩ := h
    exact ⟨through_ne_nil _ _ _ _, pairwise_through _ _ _ _⟩

end Term
end DegreePlan
