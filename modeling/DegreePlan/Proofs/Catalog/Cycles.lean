import DegreePlan.Catalog.Graph
import DegreePlan.Proofs.Lookup
import DegreePlan.Proofs.Requirement.Evaluation
import Mathlib.Data.List.Chain
import Mathlib.Data.List.Perm.Subperm
import Mathlib.Data.List.Rotate
import Mathlib.Logic.Relation

/-!
# Cycles of requirements

The search for cycles enters every course once and recurses into the courses that it mentions. The path on which it
stands is a chain of mentions whose courses were entered in its order, so an edge back to the path closes a cycle, and
no cycle is met from two of its courses. A course that is left without meeting a cycle leads only to courses that were
left before it, so a search that meets no cycle shows that there is none.
-/

namespace DegreePlan

open Relation

namespace CourseGraph

variable {g : CourseGraph} {a b : String}

/-- A course leads to another. -/
def Leads (g : CourseGraph) (a b : String) : Prop := b ∈ g.next a

/-- A course leads to another one that is listed itself. -/
def LeadsInside (g : CourseGraph) (a b : String) : Prop := g.Leads a b ∧ b ∈ g.nodes

theorem Leads.listed (h : g.Leads a b) : a ∈ g.nodes := by
  rw [Leads, next] at h
  rw [← List.contains_iff_mem, nodes, ← isSome_lookup]
  cases found : g.lookup a with
  | none => simp [found] at h
  | some _ => rfl

theorem lists_iff : g.lists a = true ↔ a ∈ g.nodes := by simp [lists, nodes]

theorem lists_eq_false : g.lists a = false ↔ a ∉ g.nodes := by rw [← lists_iff, Bool.not_eq_true]

/-- A path that can be extended is shorter than the list of all courses. -/
theorem length_lt_of_off {path courses : List String} (once : path.Nodup) (within : path ⊆ courses) (off : a ∉ path)
    (listed : a ∈ courses) : path.length < courses.length :=
  (List.subperm_of_subset (List.nodup_cons.2 ⟨off, once⟩) (List.cons_subset.2 ⟨listed, within⟩)).length_le

/-- A way from a course back to itself that meets no other course twice. -/
structure IsCycle (leads : String → String → Prop) (way : List String) : Prop where
  edge : 2 ≤ way.length
  closed : way.head? = way.getLast?
  once : way.dropLast.Nodup
  chain : way.IsChain leads

namespace IsCycle

variable {leads : String → String → Prop} {way way' : List String}

theorem shape (h : IsCycle leads way) : ∃ code rest, way = code :: rest ++ [code] := by
  obtain ⟨code, rest, rfl⟩ := List.exists_cons_of_length_pos (Nat.lt_of_lt_of_le (by decide) h.edge)
  obtain ⟨next, rest, rfl⟩ := List.exists_cons_of_length_pos (Nat.le_of_succ_le_succ h.edge)
  refine ⟨code, (next :: rest).dropLast, ?_⟩
  have last : code ∈ (next :: rest).getLast? := by simpa [List.getLast?_cons_cons] using h.closed.symm
  rw [List.cons_append, List.dropLast_append_getLast? _ last]

/-- A cycle is known by its courses without the last one. -/
theorem eq_of_dropLast (h : IsCycle leads way) (h' : IsCycle leads way') (same : way.dropLast = way'.dropLast) :
    way = way' := by
  obtain ⟨code, rest, rfl⟩ := h.shape
  obtain ⟨code', rest', rfl⟩ := h'.shape
  rw [List.dropLast_concat, List.dropLast_concat] at same
  rw [same, (List.cons.inj same).1]

theorem imp_of_mem (h : IsCycle leads way) (imp : ∀ x ∈ way, ∀ y ∈ way, leads x y → leads' x y) :
    IsCycle leads' way where
  __ := h
  chain := h.chain.imp_of_mem_imp fun x y hx hy => imp x hx y hy

end IsCycle

/-! ## The search -/

namespace CycleSearch

/-- The search has entered a course. -/
def entering (s : CycleSearch) (code : String) : CycleSearch := { s with entered := code :: s.entered }

/-- The cycle that an edge from the end of `path` back to `target` closes. -/
def loop (path : List String) (target : String) : List String := path.dropWhile (· != target) ++ [target]

/-- The search has met a cycle. -/
def meeting (s : CycleSearch) (cycle : List String) : CycleSearch := { s with cycles := s.cycles ++ [cycle] }

/-- What the search comes to when it stands at the end of `path` and follows the edges to `targets`, one after the
other. It recurses into every course that it enters, however deep. -/
inductive Explores (g : CourseGraph) : List String → List String → CycleSearch → CycleSearch → Prop where
  | done {path s} : Explores g path [] s s
  | back {path target rest s t} (met : target ∈ path) (next : Explores g path rest (s.meeting (loop path target)) t) :
      Explores g path (target :: rest) s t
  | skip {path target rest s t} (off : target ∉ path) (idle : target ∈ s.entered ∨ target ∉ g.nodes)
      (next : Explores g path rest s t) : Explores g path (target :: rest) s t
  | enter {path target rest s t u} (off : target ∉ path) (fresh : target ∉ s.entered) (listed : target ∈ g.nodes)
      (below : Explores g (path ++ [target]) (g.next target) (s.entering target) u) (next : Explores g path rest u t) :
      Explores g path (target :: rest) s t

variable {g : CourseGraph} {path targets : List String} {code target : String} {s t u : CycleSearch}

/-- A search comes to one end. -/
theorem Explores.unique (h : Explores g path targets s t) (k : Explores g path targets s u) : t = u := by
  induction h generalizing u with
  | done => cases k; rfl
  | back met _ ih =>
    cases k with
    | back _ next => exact ih next
    | skip off => exact absurd met off
    | enter off => exact absurd met off
  | skip off idle _ ih =>
    cases k with
    | back met => exact absurd met off
    | skip _ _ next => exact ih next
    | enter _ fresh listed => exact absurd idle (by simp [fresh, listed])
  | enter off fresh listed _ _ below next =>
    cases k with
    | back met => exact absurd met off
    | skip _ idle => exact absurd idle (by simp [fresh, listed])
    | enter _ _ _ below' next' =>
      cases below below'
      exact next next'

/-- The edges from the end of a path are followed by the loop over them, if what enters a course does so as well. -/
theorem explores_foldl {visit : String → CycleSearch → CycleSearch}
    (visits : ∀ target s, target ∉ path → target ∈ g.nodes →
      Explores g (path ++ [target]) (g.next target) (s.entering target) (visit target s)) :
    Explores g path targets s (targets.foldl (fun (search : CycleSearch) target =>
      if path.contains target then search.meeting (loop path target)
      else if search.entered.contains target || !g.lists target then search
      else visit target search) s) := by
  induction targets generalizing s with
  | nil => exact .done
  | cons target targets ih =>
    rw [List.foldl_cons]
    by_cases met : target ∈ path
    · rw [if_pos (by simpa using met)]
      exact .back met ih
    rw [if_neg (by simpa using met)]
    by_cases idle : target ∈ s.entered ∨ target ∉ g.nodes
    · rw [if_pos (by simpa [lists_eq_false] using idle)]
      exact .skip met idle ih
    · rw [if_neg (by simpa [lists_eq_false] using idle)]
      rw [not_or, not_not] at idle
      exact .enter met idle.1 idle.2 (visits target s met idle.2) ih

/-- A path cannot be longer than the list of courses, so the bound on the depth is never reached. -/
theorem explores_enter {fuel : Nat} (once : path.Nodup) (known : path ⊆ g.nodes) (off : code ∉ path)
    (listed : code ∈ g.nodes) (room : g.length ≤ path.length + fuel) :
    Explores g (path ++ [code]) (g.next code) (s.entering code) (CourseGraph.enter g fuel path code s) := by
  induction fuel generalizing path code s with
  | zero =>
    have shorter := length_lt_of_off once known off listed
    simp only [nodes, List.length_map] at shorter
    omega
  | succ fuel ih =>
    refine explores_foldl fun target s off' listed' => ih ?_ ?_ off' listed' ?_
    · rw [List.nodup_append_comm, List.singleton_append]
      exact List.nodup_cons.2 ⟨off, once⟩
    · exact List.append_subset.2 ⟨known, by simpa using listed⟩
    · simp only [List.length_append, List.length_singleton]
      omega

/-- The courses in the order in which the search begins at them. -/
def starts (g : CourseGraph) : List String := g.nodes.mergeSort fun a b => decide (a ≤ b)

theorem mem_starts : code ∈ starts g ↔ code ∈ g.nodes := List.mem_mergeSort

/-- The cycles of a graph are those that the unbounded search from all its courses meets. -/
theorem explores_cycles (g : CourseGraph) : ∃ t, Explores g [] (starts g) {} t ∧ t.cycles = g.cycles := by
  refine ⟨_, ?_, rfl⟩
  suffices run : ∀ codes ⊆ g.nodes, ∀ s : CycleSearch, Explores g [] codes s
      (codes.foldl (fun (search : CycleSearch) code =>
        if search.entered.contains code then search else CourseGraph.enter g g.length [] code search) s) from
    run _ (fun _ => mem_starts.1) _
  intro codes known
  induction codes with
  | nil => exact fun s => .done
  | cons code codes ih =>
    obtain ⟨listed, known⟩ := List.cons_subset.1 known
    intro s
    rw [List.foldl_cons]
    by_cases entered : code ∈ s.entered
    · rw [if_pos (by simpa using entered)]
      exact .skip List.not_mem_nil (.inl entered) (ih known s)
    · rw [if_neg (by simpa using entered)]
      exact .enter List.not_mem_nil entered listed
        (explores_enter List.nodup_nil (List.nil_subset _) List.not_mem_nil listed (by simp)) (ih known _)

/-! ## What a search keeps -/

/-- Courses are entered in front of those that were entered before. -/
theorem Explores.entered (h : Explores g path targets s t) : s.entered <:+ t.entered := by
  induction h with
  | done => exact List.suffix_refl _
  | back _ _ ih | skip _ _ _ ih => exact ih
  | enter _ _ _ _ _ below next => exact ((List.suffix_cons ..).trans below).trans next

/-- Cycles are added behind those that were met before. -/
theorem Explores.cycles (h : Explores g path targets s t) : s.cycles <+: t.cycles := by
  induction h with
  | done => exact List.prefix_refl _
  | back _ _ ih => exact (List.prefix_append ..).trans ih
  | skip _ _ _ ih => exact ih
  | enter _ _ _ _ _ below next => exact below.trans next

/-! ## The cycle that an edge closes -/

theorem loop_eq (met : target ∈ path) :
    ∃ front back, path = front ++ target :: back ∧ loop path target = target :: back ++ [target] := by
  obtain ⟨front, back, rfl, off⟩ := List.eq_append_cons_of_mem met
  refine ⟨front, back, rfl, ?_⟩
  have skip : ∀ x ∈ front, (x != target) = true := fun x hx => by
    simpa using fun same : x = target => off (same ▸ hx)
  rw [loop, List.dropWhile_append_of_pos skip, List.dropWhile_cons_of_neg (by simp)]

/-- The edge that closes a cycle is its last one. -/
theorem getLast?_loop (met : target ∈ path) : (loop path target).dropLast.getLast? = path.getLast? := by
  obtain ⟨front, back, shape, way⟩ := loop_eq met
  rw [way, shape, List.dropLast_concat, List.getLast?_append_cons]

theorem head?_loop (met : target ∈ path) : (loop path target).head? = some target := by
  obtain ⟨front, back, -, way⟩ := loop_eq met
  rw [way]; rfl

/-- A cycle whose courses were entered in its order. -/
structure Met (g : CourseGraph) (entered way : List String) : Prop where
  cycle : IsCycle g.Leads way
  order : way.dropLast.reverse.Sublist entered

variable {entered way way' : List String}

/-- The courses of a cycle that was met were entered. -/
theorem Met.subset (h : Met g entered way) : way ⊆ entered := by
  intro x hx
  refine h.order.subset (List.mem_reverse.2 ?_)
  obtain ⟨code, rest, rfl⟩ := h.cycle.shape
  rw [List.dropLast_concat]
  simpa [or_comm, or_assoc] using hx

/-- Courses that were entered in one order cannot be rotated against each other. -/
theorem Met.eq_of_isRotated (once : entered.Nodup) (h : Met g entered way) (h' : Met g entered way')
    (rotated : way.dropLast ~r way'.dropLast) : way = way' := by
  have turned : way.dropLast.reverse.Perm way'.dropLast.reverse :=
    ((List.reverse_perm _).trans rotated.perm).trans (List.reverse_perm _).symm
  have same := (once.perm_iff_eq_of_sublist h.order h'.order).1 turned
  exact h.cycle.eq_of_dropLast h'.cycle (List.reverse_inj.1 same)

/-- The path on which a search stands and the cycles that it has met. An edge ahead of the search has not been followed
yet: it closes none of these cycles. -/
structure Sound (g : CourseGraph) (path targets : List String) (s : CycleSearch) : Prop where
  entered : s.entered.Nodup
  listed : s.entered ⊆ g.nodes
  order : path.reverse.Sublist s.entered
  chain : path.IsChain g.Leads
  ahead : ∀ u ∈ path.getLast?, targets <:+ g.next u
  met : ∀ way ∈ s.cycles, Met g s.entered way
  apart : s.cycles.Pairwise fun way way' => ¬ way.dropLast ~r way'.dropLast
  fresh : ∀ u ∈ path.getLast?, ∀ v ∈ targets, ∀ way ∈ s.cycles, u ∈ way.dropLast.getLast? →
    v ∉ way.head?

namespace Sound

theorem path_subset (sound : Sound g path targets s) : path ⊆ s.entered :=
  fun _ h => sound.order.subset (List.mem_reverse.2 h)

theorem nodup_path (sound : Sound g path targets s) : path.Nodup :=
  List.nodup_reverse.1 (sound.order.nodup sound.entered)

/-- The end of the path leads to the courses ahead. -/
theorem leads (sound : Sound g path (target :: targets) s) {u : String} (hu : u ∈ path.getLast?) : g.Leads u target :=
  (sound.ahead u hu).subset (List.mem_cons_self ..)

/-- A target may be passed by. -/
theorem skip (sound : Sound g path (target :: targets) s) : Sound g path targets s where
  __ := sound
  ahead u hu := (List.suffix_cons ..).trans (sound.ahead u hu)
  fresh u hu v hv := sound.fresh u hu v (List.mem_cons_of_mem _ hv)

/-- An edge back to the path closes a cycle. -/
theorem met_loop (sound : Sound g path (target :: targets) s) (met : target ∈ path) :
    Met g s.entered (loop path target) := by
  obtain ⟨front, back, shape, way⟩ := loop_eq met
  have nodup := sound.nodup_path
  have chain := sound.chain
  have order := sound.order
  rw [shape] at nodup chain order
  rw [way]
  refine ⟨⟨by simp, by simp [List.getLast?_cons], ?once, ?chain⟩, ?order⟩
  case once =>
    rw [List.dropLast_concat]
    exact (List.nodup_append.1 nodup).2.1
  case chain =>
    refine List.isChain_append.2 ⟨(List.isChain_append.1 chain).2.1, List.isChain_singleton _, fun u hu v hv => ?_⟩
    cases hv
    exact sound.leads (by rw [shape, List.getLast?_append, Option.mem_def.1 hu]; rfl)
  case order =>
    rw [List.dropLast_concat]
    exact (List.sublist_append_right front _).reverse.trans order

theorem back (once : ∀ code, (g.next code).Nodup) (sound : Sound g path (target :: targets) s)
    (met : target ∈ path) : Sound g path targets (s.meeting (loop path target)) where
  __ := sound.skip
  met way hw := by
    rcases List.mem_append.1 hw with old | new
    · exact sound.met way old
    · exact List.mem_singleton.1 new ▸ sound.met_loop met
  apart := by
    refine List.pairwise_append.2 ⟨sound.apart, List.pairwise_singleton .., fun way old way' new rotated => ?_⟩
    rw [List.mem_singleton.1 new] at rotated
    -- an old rotation of the new cycle would be this cycle itself, whose last edge has not been followed before
    have same := (sound.met way old).eq_of_isRotated sound.entered (sound.met_loop met) rotated
    rw [same] at old
    obtain ⟨u, hu⟩ := Option.isSome_iff_exists.1 (List.getLast?_isSome.2 (List.ne_nil_of_mem met))
    exact sound.fresh u hu target (List.mem_cons_self ..) _ old ((getLast?_loop met).trans hu) (head?_loop met)
  fresh u hu v hv way hw last head := by
    rcases List.mem_append.1 hw with old | new
    · exact sound.skip.fresh u hu v hv way old last head
    · rw [List.mem_singleton.1 new, head?_loop met] at head
      cases head
      -- the end of the path leads to `target` once, so it is not ahead again
      have nodup := (sound.ahead u hu).sublist.nodup (once u)
      exact (List.nodup_cons.1 nodup).1 hv

theorem enter (sound : Sound g path (target :: targets) s) (new : target ∉ s.entered) (listed : target ∈ g.nodes) :
    Sound g (path ++ [target]) (g.next target) (s.entering target) where
  entered := List.nodup_cons.2 ⟨new, sound.entered⟩
  listed := List.cons_subset.2 ⟨listed, sound.listed⟩
  order := by
    rw [List.reverse_concat]
    exact sound.order.cons_cons target
  chain := List.isChain_append.2 ⟨sound.chain, List.isChain_singleton _, fun u hu v hv => by
    cases hv
    exact sound.leads hu⟩
  ahead u hu := by
    rw [List.getLast?_concat] at hu
    cases hu
    exact List.suffix_refl _
  met way hw := ⟨(sound.met way hw).cycle, (sound.met way hw).order.trans (List.sublist_cons_self ..)⟩
  apart := sound.apart
  fresh u hu v hv way hw last := by
    rw [List.getLast?_concat] at hu
    cases hu
    exact absurd ((sound.met way hw).order.subset (List.mem_reverse.2 (List.mem_of_getLast? last))) new

end Sound

/-- A cycle whose last edge starts at a course that was entered before, other than the end of the path, was met
before. -/
theorem Explores.old_cycle (h : Explores g path targets s t) (hw : way ∈ t.cycles) {u : String}
    (last : u ∈ way.dropLast.getLast?) (old : u ∈ s.entered) (off : u ∉ path.getLast?) : way ∈ s.cycles := by
  induction h with
  | done => exact hw
  | back met _ ih =>
    rcases List.mem_append.1 (ih hw old off) with old | new
    · exact old
    · rw [List.mem_singleton.1 new, getLast?_loop met] at last
      exact absurd last off
  | skip _ _ _ ih => exact ih hw old off
  | enter _ new _ below _ ihb ihn =>
    refine ihb (ihn hw (below.entered.subset (List.mem_cons_of_mem _ old)) off) (List.mem_cons_of_mem _ old) ?_
    rw [List.getLast?_concat]
    rintro ⟨⟩
    exact new old

/-- After a course and all that it leads to the search stands where it stood before. -/
theorem Sound.leave {u : CycleSearch} (sound : Sound g path (target :: targets) s) (new : target ∉ s.entered)
    (below : Explores g (path ++ [target]) (g.next target) (s.entering target) u)
    (after : Sound g (path ++ [target]) [] u) : Sound g path targets u where
  __ := after
  order := sound.order.trans ((List.suffix_cons ..).trans below.entered).sublist
  chain := sound.chain
  ahead := sound.skip.ahead
  fresh v hv w hw way hway last := by
    have old : v ∈ s.entered := sound.path_subset (List.mem_of_getLast? hv)
    refine sound.skip.fresh v hv w hw way (below.old_cycle hway last (List.mem_cons_of_mem _ old) ?_) last
    rw [List.getLast?_concat]
    rintro ⟨⟩
    exact new old

/-- Every step keeps what is known of the path and the cycles, so the whole search does. -/
theorem Explores.sound (once : ∀ code, (g.next code).Nodup) (h : Explores g path targets s t)
    (sound : Sound g path targets s) : Sound g path [] t := by
  induction h with
  | done => exact sound
  | back met _ ih => exact ih (sound.back once met)
  | skip _ _ _ ih => exact ih sound.skip
  | enter _ new listed below _ ihb ihn => exact ihn (sound.leave new below (ihb (sound.enter new listed)))

/-- A search that meets no cycle leaves no course before all that it leads to, so no endless chain starts at one that it
has left. -/
theorem Explores.accessible (h : Explores g path targets s t) (none : t.cycles = s.cycles)
    (left : ∀ code ∈ s.entered, code ∉ path → Acc (fun b a => g.LeadsInside a b) code) :
    (∀ code ∈ t.entered, code ∉ path → Acc (fun b a => g.LeadsInside a b) code) ∧
      ∀ code ∈ targets, code ∈ g.nodes → Acc (fun b a => g.LeadsInside a b) code := by
  induction h with
  | done => exact ⟨left, by simp⟩
  | back _ next =>
    -- the cycle that was met is still there at the end, where there should be no new one
    have longer := next.cycles.length_le
    rw [none, meeting, List.length_append, List.length_singleton] at longer
    omega
  | skip off idle _ ih =>
    obtain ⟨later, rest⟩ := ih none left
    refine ⟨later, List.forall_mem_cons.2 ⟨fun listed => ?_, rest⟩⟩
    exact left _ (idle.resolve_right (not_not_intro listed)) off
  | @enter path target rest s t u off _ _ below next ihb ihn =>
    have same : u.cycles = s.cycles := (none ▸ next.cycles).eq_of_length_le below.cycles.length_le
    -- below `target` the path is longer by it, so what was left before is still off the path
    obtain ⟨left, ahead⟩ := ihb same fun code entered hc => by
      rw [List.mem_append, List.mem_singleton, not_or] at hc
      exact left code ((List.mem_cons.1 entered).resolve_left hc.2) hc.1
    have leaves : Acc (fun b a => g.LeadsInside a b) target := .intro _ fun code h => ahead code h.1 h.2
    obtain ⟨later, rest⟩ := ihn (none.trans same.symm) fun code entered hc => by
      by_cases h : code = target
      · exact h ▸ leaves
      · exact left code entered (by simp [hc, h])
    exact ⟨later, List.forall_mem_cons.2 ⟨fun _ => leaves, rest⟩⟩

end CycleSearch

/-! ## The cycles of a graph -/

open CycleSearch

/-- A chain between two courses. -/
theorem transGen_of_isChain {r : String → String → Prop} {rest : List String}
    (chain : (a :: rest ++ [b]).IsChain r) : TransGen r a b := by
  induction rest generalizing a with
  | nil => exact .single (List.isChain_pair.1 chain)
  | cons c rest ih =>
    obtain ⟨first, chain⟩ := List.isChain_cons_cons.1 chain
    exact .head first (ih chain)

/-- Where no endless chain starts, no chain comes back. -/
theorem not_transGen_of_acc {r : String → String → Prop} (ends : Acc (fun b a => r a b) a) : ¬ TransGen r a a := by
  have away := ends.transGen
  clear ends
  induction away with
  | intro a _ ih => exact fun around => ih a (transGen_swap.2 around) around

/-- What a search keeps holds of the search from all courses. -/
theorem sound_cycles (once : ∀ code, (g.next code).Nodup) :
    ∃ t : CycleSearch, Sound g [] [] t ∧ t.cycles = g.cycles := by
  obtain ⟨t, run, cycles⟩ := explores_cycles g
  refine ⟨t, run.sound once ?_, cycles⟩
  exact ⟨.nil, List.nil_subset _, .slnil, .nil, by simp, by simp, .nil, by simp⟩

/-- A cycle that is met leads through listed courses. -/
theorem isCycle_inside (once : ∀ code, (g.next code).Nodup) {way : List String} (hw : way ∈ g.cycles) :
    IsCycle g.LeadsInside way := by
  obtain ⟨t, sound, cycles⟩ := sound_cycles once
  have met := sound.met way (cycles ▸ hw)
  exact met.cycle.imp_of_mem fun x _ y hy leads => ⟨leads, sound.listed (met.subset hy)⟩

/-- No cycle is met exactly where no course leads back to itself. -/
theorem cycles_eq_nil_iff (once : ∀ code, (g.next code).Nodup) :
    g.cycles = [] ↔ ∀ code, ¬ TransGen g.LeadsInside code code := by
  constructor
  · intro none code around
    obtain ⟨t, run, cycles⟩ := explores_cycles g
    have listed : code ∈ g.nodes := by cases around with | single h | tail _ h => exact h.2
    obtain ⟨-, acc⟩ := run.accessible (cycles.trans none) (by simp)
    exact not_transGen_of_acc (acc code (mem_starts.2 listed) listed) around
  · intro none
    refine List.eq_nil_iff_forall_not_mem.2 fun way hw => ?_
    have cycle := isCycle_inside once hw
    obtain ⟨code, rest, rfl⟩ := cycle.shape
    exact none code (transGen_of_isChain cycle.chain)

/-! ## The graph of requirement trees -/

/-- The tree of a course mentions another course. -/
def Mentions (trees : List (String × Option Requirement)) (a b : String) : Prop :=
  ∃ tree, trees.lookup a = some (some tree) ∧ b ∈ tree.leafCodes

variable {trees : List (String × Option Requirement)}

theorem next_ofTrees (code : String) :
    (ofTrees trees).next code = ((trees.lookup code).join.map (·.codes)).getD [] := by
  rw [next, ofTrees, lookup_map_row fun tree : Option Requirement => tree.elim [] (·.codes)]
  rcases trees.lookup code with _ | _ | tree <;> rfl

theorem leads_ofTrees : (ofTrees trees).Leads a b ↔ Mentions trees a b := by
  rw [Leads, next_ofTrees, Mentions]
  rcases trees.lookup a with _ | _ | tree <;> simp [Requirement.codes]

theorem leads_eq_mentions (trees : List (String × Option Requirement)) : (ofTrees trees).Leads = Mentions trees :=
  funext₂ fun _ _ => propext leads_ofTrees

theorem nodes_ofTrees : (ofTrees trees).nodes = trees.map (·.1) := by simp [nodes, ofTrees, Function.comp_def]

theorem nodup_next_ofTrees (code : String) : ((ofTrees trees).next code).Nodup := by
  rw [next_ofTrees]
  rcases trees.lookup code with _ | _ | tree
  · exact .nil
  · exact .nil
  · exact Course.nodup_distinct _

/-- The search for cycles comes to an end, however the trees mention each other. What it meets are cycles of mentions,
none of them twice and none from another of its courses, and it meets one exactly if a listed course requires itself
through listed courses. -/
theorem cycles_ofTrees (trees : List (String × Option Requirement)) :
    (∃ t : CycleSearch, Explores (ofTrees trees) [] (starts (ofTrees trees)) {} t ∧
      t.cycles = (ofTrees trees).cycles ∧
      ∀ u, Explores (ofTrees trees) [] (starts (ofTrees trees)) {} u → u = t) ∧
    (∀ way ∈ (ofTrees trees).cycles, IsCycle (Mentions trees) way) ∧
    (ofTrees trees).cycles.Pairwise (fun way way' => ¬ way.dropLast ~r way'.dropLast) ∧
    ((ofTrees trees).cycles = [] ↔
      ∀ code, ¬ TransGen (fun a b => Mentions trees a b ∧ b ∈ trees.map (·.1)) code code) := by
  have inside : (ofTrees trees).LeadsInside = fun a b => Mentions trees a b ∧ b ∈ trees.map (·.1) := by
    funext a b
    rw [LeadsInside, leads_eq_mentions, nodes_ofTrees]
  obtain ⟨t, sound, cycles⟩ := sound_cycles (g := ofTrees trees) nodup_next_ofTrees
  refine ⟨?ends, ?cycle, cycles ▸ sound.apart, ?complete⟩
  case ends =>
    obtain ⟨t, run, cycles⟩ := explores_cycles (ofTrees trees)
    exact ⟨t, run, cycles, fun u other => other.unique run⟩
  case cycle => exact fun way hw => leads_eq_mentions trees ▸ (sound.met way (cycles ▸ hw)).cycle
  case complete =>
    rw [cycles_eq_nil_iff nodup_next_ofTrees, inside]

end CourseGraph
end DegreePlan
