import Mathlib.Data.List.Iterate
import DegreePlan.Proofs.Plan.Change

/-!
# Ranges of terms

Terms are numbered by time, and the term that follows has the next number. A range is therefore the start term followed
by so many terms that follow each other: up to graduation, as many more as the buffer says, and not more than the limit
in all. An empty plan is filled with the semesters of such a range, which it lists in this order.
-/

namespace DegreePlan

namespace Term

variable {s t u last : Term}

/-! ## The number of a term -/

/-- The number of a term in time. -/
def ordinal (t : Term) : Int := t.year * 3 + t.season.index

theorem before_iff_ordinal : s.before t = true ↔ s.ordinal < t.ordinal := by
  have bound (a : Season) : a.index < 3 := by cases a <;> decide
  have := bound s.season
  have := bound t.season
  rw [before_iff, ordinal, ordinal]
  omega

theorem ordinal_inj (h : s.ordinal = t.ordinal) : s = t := by
  refine eq_of_not_before ?_ ?_ <;> rw [← Bool.not_eq_true, before_iff_ordinal] <;> omega

theorem ordinal_next (t : Term) : t.next.ordinal = t.ordinal + 1 := by
  obtain ⟨season, year⟩ := t
  cases season <;> simp only [next, ordinal, Season.index] <;> omega

theorem ordinal_iterate (n : Nat) (t : Term) : (next^[n] t).ordinal = t.ordinal + n := by
  induction n generalizing t with
  | zero => exact (Int.add_zero _).symm
  | succ n ih => rw [Function.iterate_succ_apply, ih, ordinal_next]; omega

/-- A term is reached in as many steps as its number is ahead. -/
theorem iterate_eq_iff {n : Nat} : next^[n] t = u ↔ u.ordinal = t.ordinal + n :=
  ⟨fun h => h ▸ ordinal_iterate n t, fun h => ordinal_inj ((ordinal_iterate n t).trans h.symm)⟩

/-- Terms that follow each other leave none out. -/
theorem mem_iterate {n : Nat} :
    u ∈ List.iterate next t n ↔ t.ordinal ≤ u.ordinal ∧ u.ordinal < t.ordinal + n := by
  simp only [List.mem_iterate, eq_comm (a := u), iterate_eq_iff]
  constructor
  · rintro ⟨m, hm, h⟩; omega
  · rintro ⟨h, h'⟩; exact ⟨(u.ordinal - t.ordinal).toNat, by omega, by omega⟩

/-! ## The terms of a range -/

/-- The terms up to the last one and the buffer behind it follow each other from the first on. -/
theorem through_eq (last : Term) (limit buffer : Nat) (t : Term) :
    through last limit buffer t = List.iterate next t (min limit ((last.ordinal - t.ordinal).toNat + 1 + buffer)) := by
  induction limit generalizing buffer t with
  | zero => rw [Nat.zero_min]; rfl
  | succ limit ih =>
    have step : (last.ordinal - t.next.ordinal).toNat = (last.ordinal - t.ordinal).toNat - 1 := by
      rw [ordinal_next]; omega
    unfold through
    split
    · next early =>
      rw [before_iff_ordinal] at early
      have count : min (limit + 1) ((last.ordinal - t.ordinal).toNat + 1 + buffer) =
          min limit ((last.ordinal - t.next.ordinal).toNat + 1 + buffer) + 1 := by omega
      rw [ih, count, List.iterate]
    · next late =>
      rw [before_iff_ordinal] at late
      have none : (last.ordinal - t.ordinal).toNat = 0 := by omega
      cases buffer with
      | zero =>
        have count : min (limit + 1) ((last.ordinal - t.ordinal).toNat + 1 + 0) = 1 := by omega
        rw [count]
        rfl
      | succ more =>
        have count : min (limit + 1) ((last.ordinal - t.ordinal).toNat + 1 + (more + 1)) =
            min limit ((last.ordinal - t.next.ordinal).toNat + 1 + more) + 1 := by omega
        simp only [ih, count, List.iterate]

/-- The term that a value names. -/
def read (raw : Json) : Except Fault Term := do (← readName raw).term

theorem range_eq_ok {start graduation buffer : Json} {ts : List Term} : range start graduation buffer = .ok ts ↔
    ∃ first last n, read start = .ok first ∧ read graduation = .ok last ∧
      first.ordinal ≤ last.ordinal ∧ buffer.toInteger = .ok n ∧
      ts = List.iterate next first (min maxGenerated ((last.ordinal - first.ordinal).toNat + 1 + n.toNat)) := by
  simp only [range, read, bind_eq_ok, through_eq]
  constructor
  · rintro ⟨firstName, hf, lastName, hl, last, hlast, first, hfirst, made⟩
    split at made
    · simp [bind_eq_ok] at made
    · next order =>
      rw [before_iff_ordinal] at order
      obtain ⟨n, hn, made⟩ := bind_eq_ok.1 made
      exact ⟨first, last, n, ⟨_, hf, hfirst⟩, ⟨_, hl, hlast⟩, by omega, hn, (pure_eq_ok.1 made).symm⟩
  · rintro ⟨first, last, n, ⟨firstName, hf, hfirst⟩, ⟨lastName, hl, hlast⟩, order, hn, rfl⟩
    refine ⟨firstName, hf, lastName, hl, last, hlast, first, hfirst, ?_⟩
    rw [if_neg (by rw [before_iff_ordinal]; omega), hn]
    rfl

end Term

namespace Plan

open Semester

theorem time_ofTerm (t : Term) (active : Bool) : time { ofTerm t with isActive := active } = t := by
  simp [time, ofTerm, TermName.ofTerm, TermName.term?, Season.ofText_text]

/-- An empty plan is filled with one empty semester for each term of the range, and it lists them in the order of the
range. -/
theorem generate_of_range {p : Plan} {start graduation : Json} {ts : List Term} (empty : p.semesters = [])
    (h : Term.range start graduation = .ok ts) (current : Json) :
    ∃ q, p.generate start graduation current = .ok (q.semesters, q) ∧ q.ordered = .ok q.semesters ∧
      q.semesters.map (fun s => (s.id, s.term, s.courses)) = ts.map fun t => (t.id, TermName.ofTerm t, []) := by
  let semesters := ts.map fun t =>
    { ofTerm t with isActive := current.same (.arr [.str t.season.text, .int t.year]) }
  have forward : semesters.Pairwise (notAfter · ·) := by
    refine List.pairwise_map.2 ((Term.range_ok h).2.imp fun {s t} hst => ?_)
    rw [notAfter, time_ofTerm, time_ofTerm, Bool.not_eq_true', ← Bool.not_eq_true]
    intro back
    have := Term.before_trans hst back
    rw [Term.before_irrefl] at this
    cases this
  have listed : ({ p with semesters }.touch : Plan).ordered = .ok semesters := by
    rw [ordered_of_dated, touch_semesters, sorted_of_pairwise forward]
    intro s hs
    obtain ⟨t, -, rfl⟩ := List.mem_map.1 hs
    exact dated_ofTerm t _
  refine ⟨{ p with semesters }.touch, ?_, listed, ?_⟩
  · have there : (!p.semesters.isEmpty) = false := by rw [empty]; rfl
    simp only [generate, there, h, ok_bind]
    exact congrArg (· >>= fun l => pure (l, ({ p with semesters }.touch : Plan))) listed
  · rw [touch_semesters, List.map_map]
    rfl

end Plan

namespace Term

/-- A range that is made begins with the start term and goes on with the terms that follow, as many as the steps to
graduation, one, and the buffer together, or the limit if that is less. So it runs forward in time and leaves no
term out, it has the graduation term if that is less than the limit of steps away, and no two of its terms have one
id. An empty plan gets one empty semester for each term of such a range, and lists them in this order. -/
theorem range_exact {start graduation : String} {buffer : Int} {ts : List Term}
    (h : range (.str start) (.str graduation) (.int buffer) = .ok ts) :
    ∃ first last d, read (.str start) = .ok first ∧ read (.str graduation) = .ok last ∧
      next^[d] first = last ∧ (∀ k < d, next^[k] first ≠ last) ∧
      ts = List.iterate next first (min 25 (d + 1 + (max 0 buffer).toNat)) ∧
      (ts.Pairwise fun s t => s.before t = true) ∧
      (∀ s ∈ ts, ∀ t ∈ ts, ∀ u, s.before u = true → u.before t = true → u ∈ ts) ∧
      (last ∈ ts ↔ d < 25) ∧
      (ts.map (·.id)).Nodup ∧
      ∀ (p : Plan) (current : Json), p.semesters = [] →
        ∃ q, p.generate (.str start) (.str graduation) current = .ok (q.semesters, q) ∧
          q.ordered = .ok q.semesters ∧
          q.semesters.map (fun s => (s.id, s.term, s.courses)) =
            (List.iterate next first (min 25 (d + 1 + defaultBuffer))).map fun t => (t.id, TermName.ofTerm t, []) := by
  obtain ⟨first, last, n, hf, hl, order, hn, made⟩ := range_eq_ok.1 h
  obtain rfl : buffer = n := by cases hn; rfl
  obtain ⟨d, steps⟩ : ∃ d : Nat, last.ordinal = first.ordinal + d :=
    ⟨(last.ordinal - first.ordinal).toNat, by omega⟩
  have count (m : Nat) : min maxGenerated ((last.ordinal - first.ordinal).toNat + 1 + m) = min 25 (d + 1 + m) := by
    have ahead : (last.ordinal - first.ordinal).toNat = d := by omega
    rw [ahead, maxGenerated]
  have forward := (range_ok h).2
  refine ⟨first, last, d, hf, hl, iterate_eq_iff.2 steps, fun k hk same => ?_, ?_, forward, ?_, ?_,
    nodup_ids forward, ?_⟩
  · have := iterate_eq_iff.1 same
    omega
  · have buffered : (max 0 buffer).toNat = buffer.toNat := by omega
    rw [made, count, buffered]
  · intro s hs t ht u hsu hut
    rw [made, mem_iterate] at hs ht ⊢
    rw [before_iff_ordinal] at hsu hut
    omega
  · rw [made, count, mem_iterate]
    omega
  · intro p current empty
    refine Plan.generate_of_range empty (range_eq_ok.2 ⟨first, last, defaultBuffer, hf, hl, order, rfl, ?_⟩) current
    rw [count]
    rfl

/-- Graduation is twenty-five steps away, which is one too many: the range ends with the fall before it. -/
theorem range_exact_cut : ∃ ts, range (.str "fall 2024") (.str " Spring  2033") (.int 3) = .ok ts ∧
    ts.length = 25 ∧ (ts.map (·.id)).Nodup ∧ ⟨.fall, 2032⟩ ∈ ts ∧ ⟨.spring, 2033⟩ ∉ ts := by
  obtain ⟨ts, made⟩ :=
    ok_of_isSome (x := range (.str "fall 2024") (.str " Spring  2033") (.int 3)) (by decide +kernel)
  obtain ⟨first, last, d, start, graduation, steps, -, same, -, -, within, ids, -⟩ := range_exact made
  obtain rfl : first = ⟨.fall, 2024⟩ := by
    have named : (read (.str "fall 2024")).toOption = some ⟨.fall, 2024⟩ := by decide +kernel
    rw [start] at named
    exact Option.some.inj named
  obtain rfl : last = ⟨.spring, 2033⟩ := by
    have named : (read (.str " Spring  2033")).toOption = some ⟨.spring, 2033⟩ := by decide +kernel
    rw [graduation] at named
    exact Option.some.inj named
  have away : d = 25 := by
    have : (6099 : Int) = 6074 + d := iterate_eq_iff.1 steps
    omega
  subst away
  refine ⟨ts, made, by rw [same, List.length_iterate]; rfl, ids, ?_,
    fun there => absurd (within.1 there) (by decide)⟩
  rw [same, mem_iterate]
  decide

end Term
end DegreePlan
