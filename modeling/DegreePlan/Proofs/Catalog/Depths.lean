import DegreePlan.Proofs.Catalog.Cycles
import Mathlib.Order.Bounds.Defs

/-!
# Lengths of chains

The depth of a course is found once and kept. Where no course leads back to itself the search never meets a course that
it stands on, so what it keeps under a course is one more than the greatest of the depths of the courses it leads to:
the length of the longest chain that starts there.
-/

namespace DegreePlan
namespace CourseGraph

open Relation

/-! ## The search -/

/-- The depth of a course, where `deepest` is the greatest depth of the courses it leads to. -/
def raised (g : CourseGraph) (code : String) (deepest : Nat) : Nat := if (g.next code).isEmpty then 0 else deepest + 1

/-- What the search comes to when it asks for the depths of `targets`, one after the other, while it stands on the
courses of `path`: the greatest depth so far and the depths that are known become those at the end. It descends into
every course whose depth is not known, however deep. -/
inductive Measures (g : CourseGraph) : List String → List String → Nat → Depths → Nat → Depths → Prop where
  | done {path m k} : Measures g path [] m k m k
  | known {path target rest d m k m' k'} (found : k.lookup target = some d)
      (next : Measures g path rest (max m d) k m' k') : Measures g path (target :: rest) m k m' k'
  | met {path target rest m k m' k'} (new : k.lookup target = none) (on : target ∈ path)
      (next : Measures g path rest m k m' k') : Measures g path (target :: rest) m k m' k'
  | descend {path target rest d m k below m' k'} (new : k.lookup target = none) (off : target ∉ path)
      (descent : Measures g (target :: path) (g.next target) 0 k d below)
      (next : Measures g path rest (max m (g.raised target d)) (below ++ [(target, g.raised target d)]) m' k') :
      Measures g path (target :: rest) m k m' k'

variable {g : CourseGraph} {path targets rest : List String} {code a b c : String} {d m m' : Nat}
  {known known' : Depths}

/-- The courses of the graph, listed or led to. -/
def vertices (g : CourseGraph) : List String := g.flatMap fun row => row.1 :: row.2

theorem length_vertices (g : CourseGraph) : g.vertices.length = g.size := by
  suffices run : ∀ n, g.foldl (fun n row => n + row.2.length + 1) n = n + g.vertices.length from
    ((run 0).trans (Nat.zero_add _)).symm
  induction g with
  | nil => exact fun n => rfl
  | cons row rows ih =>
    obtain ⟨code, targets⟩ := row
    intro n
    rw [List.foldl_cons, ih, vertices, vertices, List.flatMap_cons, List.length_append, List.length_cons]
    omega

theorem nodes_subset (g : CourseGraph) : g.nodes ⊆ g.vertices := by
  intro code h
  obtain ⟨row, hrow, rfl⟩ := List.mem_map.1 h
  exact List.mem_flatMap.2 ⟨row, hrow, List.mem_cons_self ..⟩

theorem next_subset (g : CourseGraph) (code : String) : g.next code ⊆ g.vertices := by
  intro target h
  rw [next] at h
  cases found : g.lookup code with
  | none => simp [found] at h
  | some targets =>
    obtain ⟨front, back, rfl, -⟩ := List.lookup_eq_some_iff.1 found
    rw [found] at h
    exact List.mem_flatMap.2 ⟨(code, targets), by simp, List.mem_cons_of_mem _ h⟩

theorem depth_known (fuel : Nat) (found : known.lookup code = some d) : depth g fuel path code known = (d, known) := by
  unfold depth; rw [found]

theorem depth_on (fuel : Nat) (new : known.lookup code = none) (on : code ∈ path) :
    depth g fuel path code known = (0, known) := by
  unfold depth; rw [new]; exact if_pos (by simpa using on)

/-- The depths of several courses, one after the other, with the greatest of them. -/
def deepest (g : CourseGraph) (fuel : Nat) (path targets : List String) (m : Nat) (known : Depths) : Nat × Depths :=
  targets.foldl (fun (m, known) target =>
    (max m (depth g fuel path target known).1, (depth g fuel path target known).2))
    (m, known)

theorem depth_succ (fuel : Nat) (new : known.lookup code = none) (off : code ∉ path) :
    depth g (fuel + 1) path code known =
      let below := deepest g fuel (code :: path) (g.next code) 0 known
      (g.raised code below.1, below.2 ++ [(code, g.raised code below.1)]) := by
  conv => lhs; unfold depth; rw [new]
  exact if_neg (by simpa using off)

/-- The depth of a course is looked up, is zero on the path, or is found by a descent. -/
theorem measures_of_descent {fuel : Nat}
    (descent : known.lookup code = none → code ∉ path →
      ∃ d below, Measures g (code :: path) (g.next code) 0 known d below ∧
      depth g fuel path code known = (g.raised code d, below ++ [(code, g.raised code d)]))
    (next : Measures g path rest (max m (depth g fuel path code known).1) (depth g fuel path code known).2 m' known') :
    Measures g path (code :: rest) m known m' known' := by
  cases found : known.lookup code with
  | some d => exact .known found (by rwa [depth_known _ found] at next)
  | none =>
    by_cases on : code ∈ path
    · exact .met found on (by rwa [depth_on _ found on, Nat.max_zero] at next)
    · obtain ⟨d, below, run, depth⟩ := descent found on
      exact .descend found on run (by rwa [depth] at next)

/-- A path cannot be longer than the list of the courses of the graph, so the bound on the depth is never reached. -/
theorem measures_depth {fuel : Nat} (once : path.Nodup) (within : path ⊆ g.vertices) (listed : code ∈ g.vertices)
    (room : g.size ≤ path.length + fuel)
    (next : Measures g path rest (max m (depth g fuel path code known).1) (depth g fuel path code known).2 m' known') :
    Measures g path (code :: rest) m known m' known' := by
  induction fuel generalizing path code rest m m' known known' with
  | zero =>
    refine measures_of_descent (fun _ off => ?_) next
    have shorter := length_lt_of_off once within off listed
    rw [length_vertices] at shorter
    omega
  | succ fuel ih =>
    refine measures_of_descent (fun new off => ⟨_, _, ?_, depth_succ fuel new off⟩) next
    have run : ∀ targets ⊆ g.vertices, ∀ m known, Measures g (code :: path) targets m known
        (deepest g fuel (code :: path) targets m known).1 (deepest g fuel (code :: path) targets m known).2 := by
      intro targets
      induction targets with
      | nil => exact fun _ m known => .done
      | cons target targets ihr =>
        intro ahead m known
        obtain ⟨first, ahead⟩ := List.cons_subset.1 ahead
        refine ih (List.nodup_cons.2 ⟨off, once⟩) (List.cons_subset.2 ⟨listed, within⟩) first ?_ (ihr ahead _ _)
        rw [List.length_cons]
        omega
    exact run _ (next_subset g code) 0 known

/-- The depths of a graph are those that the unbounded search from all its courses finds. -/
theorem measures_depths (g : CourseGraph) : ∃ m, Measures g [] g.nodes 0 [] m g.depths := by
  suffices run : ∀ codes ⊆ g.vertices, ∀ m known, ∃ m', Measures g [] codes m known m'
      (codes.foldl (fun known code => (depth g g.size [] code known).2) known) from
    run _ (nodes_subset g) 0 []
  intro codes
  induction codes with
  | nil => exact fun _ m known => ⟨m, .done⟩
  | cons code codes ih =>
    intro within m known
    obtain ⟨listed, within⟩ := List.cons_subset.1 within
    obtain ⟨m', run⟩ := ih within (max m (depth g g.size [] code known).1) (depth g g.size [] code known).2
    exact ⟨m', measures_depth .nil (List.nil_subset _) listed (by simp) run⟩

/-! ## The courses that have a depth -/

theorem isSome_lookup_concat (known : Depths) (code other : String) (d : Nat) :
    ((known ++ [(code, d)]).lookup other).isSome ↔ (known.lookup other).isSome ∨ other = code := by
  rw [List.lookup_append, lookup_cons_ite]
  cases known.lookup other <;> by_cases h : other = code <;> simp [h]

/-- Depths that are known stay known. -/
theorem Measures.mono (h : Measures g path targets m known m' known') (hc : (known.lookup c).isSome) :
    (known'.lookup c).isSome := by
  induction h with
  | done => exact hc
  | known _ _ ih | met _ _ _ ih => exact ih hc
  | descend _ _ _ _ below next => exact next ((isSome_lookup_concat ..).2 (.inl (below hc)))

/-- The courses that are asked for become known, but for those on the path. -/
theorem Measures.asked (h : Measures g path targets m known m' known') (hc : c ∈ targets) :
    (known'.lookup c).isSome ∨ c ∈ path := by
  induction h with
  | done => exact absurd hc List.not_mem_nil
  | known found next ih =>
    rcases List.mem_cons.1 hc with rfl | hc
    · exact .inl (next.mono (by simp [found]))
    · exact ih hc
  | met _ on _ ih =>
    rcases List.mem_cons.1 hc with rfl | hc
    · exact .inr on
    · exact ih hc
  | descend _ _ _ next _ ih =>
    rcases List.mem_cons.1 hc with rfl | hc
    · exact .inl (next.mono ((isSome_lookup_concat ..).2 (.inr rfl)))
    · exact ih hc

/-- Where a course is known, those that it leads to are known, but for those on the path. -/
theorem Measures.closed (h : Measures g path targets m known m' known')
    (closed : ∀ a b, (known.lookup a).isSome → g.Leads a b → (known.lookup b).isSome ∨ b ∈ path) :
    ∀ a b, (known'.lookup a).isSome → g.Leads a b → (known'.lookup b).isSome ∨ b ∈ path := by
  induction h with
  | done => exact closed
  | known _ _ ih | met _ _ _ ih => exact ih closed
  | descend _ _ descent _ below next =>
    -- the course itself is on the path below, and becomes known when the descent is over
    have finished := below fun a b ha hb => (closed a b ha hb).imp_right (List.mem_cons_of_mem _)
    refine next fun a b ha hb => ?_
    have settled := (isSome_lookup_concat ..).1 ha |>.elim (finished a b · hb) fun same => descent.asked (same ▸ hb)
    rw [isSome_lookup_concat, or_assoc, ← List.mem_cons]
    exact settled

/-- Only courses become known that are asked for or led to. -/
theorem Measures.within {P : String → Prop} (h : Measures g path targets m known m' known')
    (asked : ∀ c ∈ targets, P c) (ledTo : ∀ a b, g.Leads a b → P b)
    (old : ∀ c, (known.lookup c).isSome → P c) : ∀ c, (known'.lookup c).isSome → P c := by
  induction h with
  | done => exact old
  | known _ _ ih | met _ _ _ ih => exact ih (List.forall_mem_cons.1 asked).2 old
  | @descend _ target _ _ _ _ _ _ _ _ _ _ _ below next =>
    obtain ⟨first, rest⟩ := List.forall_mem_cons.1 asked
    refine next rest fun c hc => ?_
    rcases (isSome_lookup_concat ..).1 hc with hc | rfl
    · exact below (fun b hb => ledTo target b hb) old c hc
    · exact first

/-- The courses that have a depth are those that are listed and those that they lead to. -/
theorem isSome_lookup_depths : (g.depths.lookup c).isSome ↔ c ∈ g.nodes ∨ ∃ a, g.Leads a c := by
  obtain ⟨m, run⟩ := measures_depths g
  refine ⟨?_, ?_⟩
  · exact run.within (P := fun c => c ∈ g.nodes ∨ ∃ a, g.Leads a c) (fun _ => .inl)
      (fun a b h => .inr ⟨a, h⟩) (by simp) c
  · have asked : ∀ a ∈ g.nodes, (g.depths.lookup a).isSome := fun a ha => by simpa using run.asked ha
    rintro (listed | ⟨a, leads⟩)
    · exact asked c listed
    · simpa using run.closed (by simp) a c (asked a leads.listed) leads

/-! ## Longest chains -/

/-- The longest chain from a course takes `k` steps. -/
def Longest (leads : String → String → Prop) (code : String) (k : Nat) : Prop :=
  IsGreatest {n | ∃ rest : List String, rest.length = n ∧ (code :: rest).IsChain leads} k

theorem Longest.unique {leads : String → String → Prop} {k n : Nat} (h : Longest leads code k)
    (h' : Longest leads code n) :
    k = n := Nat.le_antisymm (h'.2 h.1) (h.2 h'.1)

/-- The greatest of `m` and the lengths of the longest chains from several courses. -/
structure Greatest (leads : String → String → Prop) (targets : List String) (m greatest : Nat) : Prop where
  start : m ≤ greatest
  each : ∀ b ∈ targets, ∃ d ≤ greatest, Longest leads b d
  attained : greatest = m ∨ ∃ b ∈ targets, Longest leads b greatest

theorem Greatest.nil {leads : String → String → Prop} : Greatest leads [] m m :=
  ⟨Nat.le_refl m, by simp, .inl rfl⟩

theorem Greatest.cons {leads : String → String → Prop} (first : Longest leads b d)
    (rest : Greatest leads targets (max m d) m') : Greatest leads (b :: targets) m m' where
  start := (Nat.le_max_left m d).trans rest.start
  each := List.forall_mem_cons.2 ⟨⟨d, (Nat.le_max_right m d).trans rest.start, first⟩, rest.each⟩
  attained := by
    rcases rest.attained with same | ⟨c, hc, longest⟩
    · rcases Nat.le_total d m with le | le
      · exact .inl (same.trans (Nat.max_eq_left le))
      · exact .inr ⟨b, List.mem_cons_self .., by rwa [same, Nat.max_eq_right le]⟩
    · exact .inr ⟨c, List.mem_cons_of_mem b hc, longest⟩

/-- A longest chain from a course goes on with a longest chain from one of the courses that it leads to. -/
theorem Greatest.longest (below : Greatest g.Leads (g.next code) 0 m) : Longest g.Leads code (g.raised code m) := by
  rw [raised]
  split
  · rename_i none
    have last : g.next code = [] := by simpa using none
    refine ⟨⟨[], rfl, .singleton _⟩, ?_⟩
    rintro _ ⟨rest, rfl, chain⟩
    cases chain with
    | singleton => exact Nat.le_refl _
    | cons_cons first _ => rw [Leads, last] at first; cases first
  · rename_i some
    obtain ⟨b, hb, ⟨rest, length, chain⟩, -⟩ : ∃ b ∈ g.next code, Longest g.Leads b m := by
      refine below.attained.elim (fun zero => ?_) id
      obtain ⟨b, hb⟩ := List.exists_mem_of_ne_nil (g.next code) (by simpa using some)
      obtain ⟨d, hd, longest⟩ := below.each b hb
      obtain rfl : d = m := by omega
      exact ⟨b, hb, longest⟩
    -- the longest chain from `b` is taken, and no chain goes on by a longer one
    refine ⟨⟨b :: rest, by rw [List.length_cons, length], .cons_cons hb chain⟩, ?_⟩
    rintro _ ⟨rest, rfl, chain⟩
    cases chain with
    | singleton => exact Nat.zero_le _
    | @cons_cons _ b rest first chain =>
      obtain ⟨d, hd, -, greatest⟩ := below.each b first
      exact Nat.succ_le_succ ((greatest ⟨rest, rfl, chain⟩).trans hd)

/-- Where no course leads back to itself, the depths that become known are the lengths of longest chains. -/
theorem Measures.longest (h : Measures g path targets m known m' known') (acyclic : ∀ c, ¬ TransGen g.Leads c c)
    (ahead : ∀ a ∈ path, ∀ b ∈ targets, TransGen g.Leads a b)
    (right : ∀ c d, known.lookup c = some d → Longest g.Leads c d) :
    (∀ c d, known'.lookup c = some d → Longest g.Leads c d) ∧ Greatest g.Leads targets m m' := by
  induction h with
  | done => exact ⟨right, .nil⟩
  | known found _ ih =>
    obtain ⟨later, greatest⟩ := ih (fun a ha => (List.forall_mem_cons.1 (ahead a ha)).2) right
    exact ⟨later, greatest.cons (right _ _ found)⟩
  | met _ on _ ih =>
    -- the path leads to what is asked for, so a course on it that is asked for leads to itself
    exact absurd (ahead _ on _ (List.mem_cons_self ..)) (acyclic _)
  | @descend path target rest d m k below m' k' new off _ _ ihb ihn =>
    obtain ⟨inner, deepest⟩ := ihb (List.forall_mem_cons.2 ⟨fun b hb => .single hb, fun a ha b hb =>
      (ahead a ha target (List.mem_cons_self ..)).tail hb⟩) right
    obtain ⟨later, greatest⟩ := ihn (fun a ha => (List.forall_mem_cons.1 (ahead a ha)).2) fun c e found => by
      rw [List.lookup_append, Option.or_eq_some_iff, lookup_cons_ite] at found
      rcases found with old | ⟨-, added⟩
      · exact inner c e old
      · split at added
        · rename_i same; cases added; exact same ▸ deepest.longest
        · cases added
    exact ⟨later, greatest.cons deepest.longest⟩

/-- Where no course leads back to itself, every depth is the length of a longest chain. -/
theorem longest_depths (acyclic : ∀ c, ¬ TransGen g.Leads c c) (found : g.depths.lookup c = some d) :
    Longest g.Leads c d := by
  obtain ⟨m, run⟩ := measures_depths g
  exact (run.longest acyclic (by simp) (by simp)).1 c d found

/-! ## The graph of dependents -/

theorem next_cons (code other : String) (targets : List String) (g : CourseGraph) :
    next ((code, targets) :: g) other = if other = code then targets else g.next other := by
  rw [next, lookup_cons_ite]
  split <;> rfl

theorem leads_link {source target : String} {g : CourseGraph} :
    (link source target g).Leads a b ↔ g.Leads a b ∨ a = source ∧ b = target := by
  induction g with
  | nil =>
    rw [link, Leads, next_cons]
    by_cases ha : a = source <;> simp [ha, Leads, next]
  | cons row g ih =>
    obtain ⟨code, targets⟩ := row
    unfold Leads at ih ⊢
    rw [link]
    by_cases here : code = source
    · rw [if_pos (by simpa using here), next_cons, next_cons, ← here]
      by_cases ha : a = code
      · rw [if_pos ha, if_pos ha]
        by_cases hb : target ∈ targets
        · rw [if_pos (by simpa using hb)]
          exact ⟨.inl, fun h => h.elim id fun h => h.2 ▸ hb⟩
        · rw [if_neg (by simpa using hb), List.mem_append, List.mem_singleton]
          exact or_congr_right ⟨fun h => ⟨ha, h⟩, And.right⟩
      · rw [if_neg ha, if_neg ha]
        exact ⟨.inl, fun h => h.elim id fun h => absurd h.1 ha⟩
    · rw [if_neg (by simpa using here), next_cons, next_cons]
      by_cases ha : a = code
      · rw [if_pos ha, if_pos ha]
        exact ⟨.inl, fun h => h.elim id fun h => absurd (ha.symm.trans h.1) here⟩
      · rw [if_neg ha, if_neg ha]
        exact ih

theorem nodes_link {source target : String} {g : CourseGraph} :
    a ∈ (link source target g).nodes ↔ a ∈ g.nodes ∨ a = source := by
  induction g with
  | nil => simp [nodes, link]
  | cons row g ih =>
    obtain ⟨code, targets⟩ := row
    unfold nodes at ih ⊢
    rw [link]
    by_cases here : code = source
    · rw [if_pos (by simpa using here), ← here, List.map_cons, List.map_cons, List.mem_cons, or_assoc,
        or_comm (b := a = code), ← or_assoc, or_self]
    · rw [if_neg (by simpa using here), List.map_cons, List.mem_cons, ih, List.map_cons, List.mem_cons, or_assoc]

/-- Links from several courses to one. -/
theorem leads_links {sources : List String} {g : CourseGraph} :
    (sources.foldl (fun g source => g.link source code) g).Leads a b ↔ g.Leads a b ∨ b = code ∧
    a ∈ sources := by
  induction sources generalizing g with
  | nil => simp
  | cons source sources ih =>
    rw [List.foldl_cons, ih, leads_link, or_assoc, List.mem_cons, and_or_left, and_comm (a := a = source)]

/-- A course leads to those that mention it. -/
theorem leads_dependents {codes : List String} {mentions : CourseGraph} :
    (dependents codes mentions).Leads a b ↔ b ∈ codes ∧ mentions.Leads b a := by
  suffices run : ∀ g : CourseGraph, (codes.foldl (fun g code =>
      (mentions.next code).foldl (fun g source => g.link source code) g) g).Leads a b ↔
        g.Leads a b ∨ b ∈ codes ∧ mentions.Leads b a by
    rw [dependents, run]
    simp [Leads, next]
  induction codes with
  | nil => simp
  | cons code codes ih =>
    intro g
    rw [List.foldl_cons, ih, leads_links, or_assoc, List.mem_cons, or_and_right]
    exact or_congr_right (or_congr_left (and_congr_right fun h => h ▸ Iff.rfl))

/-- Every listed course leads to another one. -/
def Busy (g : CourseGraph) : Prop := ∀ a ∈ g.nodes, ∃ b, g.Leads a b

theorem Busy.link {source target : String} (busy : g.Busy) : (link source target g).Busy := by
  intro a ha
  rcases nodes_link.1 ha with ha | rfl
  · obtain ⟨b, hb⟩ := busy a ha
    exact ⟨b, leads_link.2 (.inl hb)⟩
  · exact ⟨target, leads_link.2 (.inr ⟨rfl, rfl⟩)⟩

theorem busy_dependents (codes : List String) (mentions : CourseGraph) : (dependents codes mentions).Busy :=
  List.foldlRecOn (motive := Busy) codes _ (by simp [Busy, nodes]) fun _ busy _ _ =>
    List.foldlRecOn (motive := Busy) _ _ busy fun _ busy _ _ => busy.link

/-! ## The depths of a catalog -/

/-- A course mentions another one or is mentioned itself. -/
def Concerned (trees : List (String × Option Requirement)) (code : String) : Prop :=
  (∃ other, Mentions trees other code) ∨ ∃ other, Mentions trees code other

/-- Without a cycle among the listed courses there is no cycle of mentions: every course on one mentions another and is
listed. -/
theorem not_transGen_leads (none : ∀ code, ¬ TransGen g.LeadsInside code code) : ¬ TransGen g.Leads a a := by
  have inside {b} (way : TransGen g.Leads a b) (listed : b ∈ g.nodes) : TransGen g.LeadsInside a b := by
    induction way with
    | single h => exact .single ⟨h, listed⟩
    | tail _ h ih => exact (ih h.listed).tail ⟨h, listed⟩
  intro around
  have listed : a ∈ g.nodes := by
    obtain ⟨b, h, -⟩ := TransGen.head'_iff.1 around
    exact h.listed
  exact none a (inside around listed)

section Catalog

variable {trees trees' : List (String × Option Requirement)} {codes codes' : List String}

theorem leads_dependents_ofTrees (same : codes.Perm (trees.map (·.1))) :
    (dependents codes (ofTrees trees)).Leads a b ↔ Mentions trees b a := by
  rw [leads_dependents, leads_ofTrees, and_iff_right_iff_imp]
  intro mention
  exact same.mem_iff.2 (@nodes_ofTrees trees ▸ (leads_ofTrees.2 mention).listed)

/-- The courses that have a depth are those that mention or are mentioned. -/
theorem isSome_lookup_depths_dependents (same : codes.Perm (trees.map (·.1))) :
    ((dependents codes (ofTrees trees)).depths.lookup c).isSome ↔ Concerned trees c := by
  rw [isSome_lookup_depths, Concerned]
  refine or_congr ⟨fun h => ?_, ?_⟩ (exists_congr fun a => leads_dependents_ofTrees same)
  · obtain ⟨b, hb⟩ := busy_dependents _ _ c h
    exact ⟨b, (leads_dependents_ofTrees same).1 hb⟩
  · rintro ⟨b, hb⟩
    exact ((leads_dependents_ofTrees same).2 hb).listed

theorem not_transGen_mentions (acyclic : (ofTrees trees).cycles = []) : ¬ TransGen (Mentions trees) a a := by
  exact leads_eq_mentions trees ▸ not_transGen_leads ((cycles_eq_nil_iff nodup_next_ofTrees).1 acyclic)

/-- Where no course requires itself, the courses that mention or are mentioned have the lengths of their longest chains
as depths. -/
theorem lookup_depths_of_concerned (same : codes.Perm (trees.map (·.1)))
    (acyclic : ∀ c, ¬ TransGen (Mentions trees) c c) (concerned : Concerned trees c) :
    ∃ k, (dependents codes (ofTrees trees)).depths.lookup c = some k ∧
      Longest (fun a b => Mentions trees b a) c k := by
  have leads : (dependents codes (ofTrees trees)).Leads = fun a b => Mentions trees b a :=
    funext₂ fun _ _ => propext (leads_dependents_ofTrees same)
  obtain ⟨k, found⟩ := Option.isSome_iff_exists.1 ((isSome_lookup_depths_dependents same).2 concerned)
  refine ⟨k, found, leads ▸ longest_depths (fun code around => ?_) found⟩
  rw [leads] at around
  exact acyclic code (transGen_swap.1 around)

/-- The other courses have none. -/
theorem lookup_depths_of_not_concerned (same : codes.Perm (trees.map (·.1))) (alone : ¬ Concerned trees c) :
    (dependents codes (ofTrees trees)).depths.lookup c = none := by
  rwa [← Option.not_isSome_iff_eq_none, isSome_lookup_depths_dependents same]

theorem mentions_perm (order : trees'.Perm trees) (once : (trees.map (·.1)).Nodup) :
    Mentions trees' = Mentions trees := by
  funext a b
  rw [Mentions, Mentions, lookup_perm order once]

/-- In a catalog whose courses do not require themselves, the depth of a course is the length of the longest chain in
which every course is mentioned by the next one. The courses that neither mention nor are mentioned have none, and the
order of the catalog does not count. -/
theorem lookup_depths_dependents (once : codes.Nodup) (same : codes.Perm (trees.map (·.1)))
    (acyclic : (ofTrees trees).cycles = []) :
    (∀ code, Concerned trees code → ∃ k, (dependents codes (ofTrees trees)).depths.lookup code = some k ∧
      Longest (fun a b => Mentions trees b a) code k) ∧
    (∀ code, ¬ Concerned trees code → (dependents codes (ofTrees trees)).depths.lookup code = none) ∧
    ∀ codes' trees', codes'.Perm codes → trees'.Perm trees → ∀ code,
      (dependents codes' (ofTrees trees')).depths.lookup code =
      (dependents codes (ofTrees trees)).depths.lookup code := by
  have straight (c : String) : ¬ TransGen (Mentions trees) c c := not_transGen_mentions acyclic
  refine ⟨fun code => lookup_depths_of_concerned same straight, fun code => lookup_depths_of_not_concerned same,
    fun codes' trees' order order' code => ?order⟩
  have mentions : Mentions trees' = Mentions trees := mentions_perm order' (same.nodup_iff.1 once)
  have same' : codes'.Perm (trees'.map (·.1)) := (order.trans same).trans (order'.symm.map _)
  have concern : Concerned trees' code ↔ Concerned trees code := by rw [Concerned, Concerned, mentions]
  by_cases concerned : Concerned trees code
  · obtain ⟨k, found, longest⟩ := lookup_depths_of_concerned same straight concerned
    obtain ⟨k', found', longest'⟩ :=
      lookup_depths_of_concerned same' (mentions.symm ▸ straight) (concern.2 concerned)
    rw [found, found', longest.unique (mentions ▸ longest')]
  · rw [lookup_depths_of_not_concerned same concerned, lookup_depths_of_not_concerned same' (concern.not.2 concerned)]

/-- A chain of three courses, the last of which needs a course from outside as well. -/
def chainTrees : List (String × Option Requirement) :=
  [("CS 1301", none), ("CS 1331", some (.course "CS 1301" (some .c))),
   ("CS 1332", some (.all [.course "CS 1331" none, .any [.course "MATH 1113" none, .course "CS 1301" none]]))]

theorem lookup_depths_dependents_chain :
    ["CS 1332", "CS 1301", "CS 1331"].Nodup ∧ ["CS 1332", "CS 1301", "CS 1331"].Perm (chainTrees.map (·.1)) ∧
      (ofTrees chainTrees).cycles = [] ∧ Longest (fun a b => Mentions chainTrees b a) "CS 1301" 2 := by
  have once : ["CS 1332", "CS 1301", "CS 1331"].Nodup := by decide
  have same : ["CS 1332", "CS 1301", "CS 1331"].Perm (chainTrees.map (·.1)) := by decide
  have sorted : (ofTrees chainTrees).nodes.Pairwise fun a b => decide (a ≤ b) = true := by decide +kernel
  have acyclic : (ofTrees chainTrees).cycles = [] := by
    rw [cycles, List.mergeSort_of_pairwise sorted]
    decide +kernel
  have mention : Mentions chainTrees "CS 1331" "CS 1301" := ⟨_, rfl, by decide⟩
  obtain ⟨k, found, longest⟩ := (lookup_depths_dependents once same acyclic).1 "CS 1301" (.inl ⟨_, mention⟩)
  have two : (dependents ["CS 1332", "CS 1301", "CS 1331"] (ofTrees chainTrees)).depths.lookup "CS 1301" = some 2 := by
    decide +kernel
  rw [two] at found
  cases found
  exact ⟨once, same, acyclic, longest⟩

end Catalog

end CourseGraph
end DegreePlan
