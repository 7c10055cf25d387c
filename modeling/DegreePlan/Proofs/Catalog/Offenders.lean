import DegreePlan.Proofs.Catalog.Cycles

/-!
# Which offenders a search names

A course that requires itself need not be on a cycle that the search meets: the way back to it may lead through a course
that the search has entered and left before. When the search comes to a course, the courses that it has not left are
those of its path and those ahead of it. It enters all that lies ahead below that course, and an edge back to the
path closes a cycle through it. So the search names a course exactly if the course requires itself through courses
that were not left, and the first course of a knot that it comes to is always named.
-/

namespace DegreePlan

open Relation

namespace CourseGraph

variable {a b : String}

/-- A chain from one course to another that leads back stays among the courses that require each other. -/
theorem transGen_knot {r : String → String → Prop} (chain : TransGen r a b) (back : ReflTransGen r b a) :
    TransGen (fun x y => r x y ∧ TransGen r a y ∧ ReflTransGen r y a) a b := by
  induction chain with
  | single h => exact .single ⟨h, .single h, back⟩
  | tail chain h ih => exact .tail (ih (.head h back)) ⟨h, chain.tail h, back⟩

namespace IsCycle

variable {leads leads' : String → String → Prop} {way : List String}

/-- Any two courses of a cycle require each other. -/
theorem joined (h : IsCycle leads way) (ha : a ∈ way) (hb : b ∈ way) : TransGen leads a b := by
  obtain ⟨code, rest, rfl⟩ := h.shape
  have turn : ∀ x ∈ code :: rest ++ [code], TransGen leads code x ∧ TransGen leads x code := by
    intro x hx
    rw [List.cons_append, List.mem_cons, List.mem_append, List.mem_singleton, or_comm, or_assoc, or_self] at hx
    rcases hx with within | rfl
    · obtain ⟨front, back, rfl⟩ := List.append_of_mem within
      have chain : (code :: front ++ x :: (back ++ [code])).IsChain leads := by simpa using h.chain
      exact ⟨transGen_of_isChain (List.isChain_split.1 chain).1, transGen_of_isChain (List.isChain_split.1 chain).2⟩
    · exact ⟨transGen_of_isChain h.chain, transGen_of_isChain h.chain⟩
  exact (turn a ha).2.trans (turn b hb).1

/-- Every course of a cycle leads to one of its courses. -/
theorem successor (h : IsCycle leads way) (ha : a ∈ way) : ∃ b ∈ way, leads a b := by
  have inside : IsCycle (fun x y => leads x y ∧ y ∈ way) way := h.imp_of_mem fun x _ y hy leads => ⟨leads, hy⟩
  obtain ⟨b, ⟨leads, hb⟩, -⟩ := TransGen.head'_iff.1 (inside.joined ha ha)
  exact ⟨b, hb, leads⟩

end IsCycle

namespace CycleSearch

variable {g : CourseGraph} {path place targets : List String} {code target p : String} {s t u : CycleSearch}

/-- The search has entered a course and does not stand below it any more. -/
def Left (path : List String) (s : CycleSearch) (code : String) : Prop := code ∈ s.entered ∧ code ∉ path

/-- The search from `s` to `t` enters a course on its way: it stands at the end of `place` then, and has come to `u`. -/
inductive Enters (g : CourseGraph) (code : String) (place : List String) (u : CycleSearch) :
    List String → List String → CycleSearch → CycleSearch → Prop where
  | here {rest t v} (off : code ∉ place) (fresh : code ∉ u.entered) (listed : code ∈ g.nodes)
      (below : Explores g (place ++ [code]) (g.next code) (u.entering code) v) (next : Explores g place rest v t) :
      Enters g code place u place (code :: rest) u t
  | within {path target rest s t v} (off : target ∉ path) (fresh : target ∉ s.entered) (listed : target ∈ g.nodes)
      (below : Enters g code place u (path ++ [target]) (g.next target) (s.entering target) v)
      (next : Explores g path rest v t) : Enters g code place u path (target :: rest) s t
  | past {path target rest s t v} (off : target ∉ path) (fresh : target ∉ s.entered) (listed : target ∈ g.nodes)
      (below : Explores g (path ++ [target]) (g.next target) (s.entering target) v)
      (next : Enters g code place u path rest v t) : Enters g code place u path (target :: rest) s t
  | back {path target rest s t} (met : target ∈ path)
      (next : Enters g code place u path rest (s.meeting (loop path target)) t) :
      Enters g code place u path (target :: rest) s t
  | skip {path target rest s t} (off : target ∉ path) (idle : target ∈ s.entered ∨ target ∉ g.nodes)
      (next : Enters g code place u path rest s t) : Enters g code place u path (target :: rest) s t

/-- It is the same search. -/
theorem Enters.explores (h : Enters g code place u path targets s t) : Explores g path targets s t := by
  induction h with
  | here off fresh listed below next => exact .enter off fresh listed below next
  | within off fresh listed _ next ih => exact .enter off fresh listed ih next
  | past off fresh listed below _ ih => exact .enter off fresh listed below ih
  | back met _ ih => exact .back met ih
  | skip off idle _ ih => exact .skip off idle ih

/-- A course is entered once: it was not entered before, and it has been entered then. -/
theorem Enters.entered (h : Enters g code place u path targets s t) : code ∉ s.entered ∧ code ∈ t.entered := by
  induction h with
  | here _ fresh _ below next => exact ⟨fresh, next.entered.subset (below.entered.subset (List.mem_cons_self ..))⟩
  | within _ _ _ _ next ih => exact ⟨fun old => ih.1 (List.mem_cons_of_mem _ old), next.entered.subset ih.2⟩
  | past _ _ _ below _ ih =>
    exact ⟨fun old => ih.1 (below.entered.subset (List.mem_cons_of_mem _ old)), ih.2⟩
  | back _ _ ih | skip _ _ _ ih => exact ih

/-- A search that comes to courses of a kind comes to a first one. -/
theorem Explores.first {kind : String → Prop} (h : Explores g path targets s t)
    (before : ∀ x ∈ s.entered, ¬ kind x) {x : String} (hx : x ∈ t.entered) (is : kind x) :
    ∃ code place u, kind code ∧ Enters g code place u path targets s t ∧ ∀ x ∈ u.entered, ¬ kind x := by
  induction h generalizing x with
  | done => exact absurd is (before x hx)
  | back met _ ih =>
    obtain ⟨code, place, u, is, enters, none⟩ := ih before hx is
    exact ⟨code, place, u, is, .back met enters, none⟩
  | skip off idle _ ih =>
    obtain ⟨code, place, u, is, enters, none⟩ := ih before hx is
    exact ⟨code, place, u, is, .skip off idle enters, none⟩
  | @enter path target rest s t v off fresh listed below next ihb ihn =>
    by_cases own : kind target
    · exact ⟨target, path, s, own, .here off fresh listed below next, before⟩
    by_cases early : ∀ x ∈ v.entered, ¬ kind x
    · obtain ⟨code, place, u, is, enters, none⟩ := ihn early hx is
      exact ⟨code, place, u, is, .past off fresh listed below enters, none⟩
    · push Not at early
      obtain ⟨y, hy, is⟩ := early
      obtain ⟨code, place, u, is, enters, none⟩ := ihb (List.forall_mem_cons.2 ⟨own, before⟩) hy is
      exact ⟨code, place, u, is, .within off fresh listed enters next, none⟩

/-! ## What lies ahead -/

/-- A search enters all that it is sent to and all that its newly entered courses lead to. -/
theorem Explores.closed (h : Explores g path targets s t) (walked : path ⊆ s.entered) :
    (∀ x ∈ targets, x ∈ g.nodes → x ∈ t.entered) ∧
      ∀ x ∈ t.entered, x ∉ s.entered → ∀ y, g.LeadsInside x y → y ∈ t.entered := by
  induction h with
  | done => exact ⟨by simp, fun x old new => absurd old new⟩
  | back met next ih =>
    obtain ⟨ahead, onward⟩ := ih walked
    exact ⟨List.forall_mem_cons.2 ⟨fun _ => next.entered.subset (walked met), ahead⟩, onward⟩
  | skip _ idle next ih =>
    obtain ⟨ahead, onward⟩ := ih walked
    refine ⟨List.forall_mem_cons.2 ⟨fun listed => ?_, ahead⟩, onward⟩
    exact next.entered.subset (idle.resolve_right (not_not_intro listed))
  | @enter path target rest s t v _ _ _ below next ihb ihn =>
    have since : s.entered ⊆ v.entered := fun x old => below.entered.subset (List.mem_cons_of_mem _ old)
    have here : target ∈ v.entered := below.entered.subset (List.mem_cons_self ..)
    obtain ⟨belowAhead, belowOnward⟩ := ihb (List.append_subset.2
      ⟨fun x hx => List.mem_cons_of_mem _ (walked hx),
        List.cons_subset.2 ⟨List.mem_cons_self .., List.nil_subset _⟩⟩)
    obtain ⟨ahead, onward⟩ := ihn fun x hx => since (walked hx)
    refine ⟨List.forall_mem_cons.2 ⟨fun _ => next.entered.subset here, ahead⟩, fun x hx new y leads => ?_⟩
    by_cases early : x ∈ v.entered
    · refine next.entered.subset ?_
      by_cases own : x = target
      · exact belowAhead y (own ▸ leads.1) leads.2
      · exact belowOnward x early (by simp [entering, own, new]) y leads
    · exact onward x hx early y leads

/-- An edge to the path closes a cycle there, from the end of the path and from every course that the search enters. -/
theorem Explores.closes (h : Explores g path targets s t) (met : p ∈ path) :
    (p ∈ targets → loop path p ∈ t.cycles) ∧
      ∀ x ∈ t.entered, x ∉ s.entered → g.Leads x p → ∃ rest, loop (path ++ rest) p ∈ t.cycles := by
  induction h with
  | done => exact ⟨by simp, fun x old new => absurd old new⟩
  | back _ next ih =>
    obtain ⟨ahead, onward⟩ := ih met
    refine ⟨fun hp => ?_, onward⟩
    rcases List.mem_cons.1 hp with rfl | later
    · exact next.cycles.subset (List.mem_append_right _ (List.mem_singleton_self _))
    · exact ahead later
  | skip off _ _ ih =>
    obtain ⟨ahead, onward⟩ := ih met
    exact ⟨fun hp => ahead (List.mem_of_ne_of_mem (ne_of_mem_of_not_mem met off) hp), onward⟩
  | @enter path target rest s t v off _ _ below next ihb ihn =>
    obtain ⟨belowAhead, belowOnward⟩ := ihb (List.mem_append_left _ met)
    obtain ⟨ahead, onward⟩ := ihn met
    refine ⟨fun hp => ahead (List.mem_of_ne_of_mem (ne_of_mem_of_not_mem met off) hp), fun x hx new leads => ?_⟩
    by_cases early : x ∈ v.entered
    · by_cases own : x = target
      · exact ⟨[target], next.cycles.subset (belowAhead (own ▸ leads))⟩
      · obtain ⟨rest, closed⟩ := belowOnward x early (by simp [entering, own, new]) leads
        exact ⟨target :: rest, next.cycles.subset (by simpa using closed)⟩
    · exact onward x hx early leads

/-- A cycle that closes at a course of the path runs along the rest of it. -/
theorem loop_append {rest : List String} (met : p ∈ path) :
    loop (path ++ rest) p = (loop path p).dropLast ++ rest ++ [p] := by
  obtain ⟨front, back, -, way⟩ := loop_eq met
  have start : path.dropWhile (· != p) = p :: back := List.append_cancel_right way
  rw [way, List.dropLast_concat, loop, List.dropWhile_append, start]
  rfl

/-- The end of a path is on every cycle that closes at a course of the path. -/
theorem mem_loop {rest : List String} (met : p ∈ place ++ [code]) : code ∈ loop (place ++ [code] ++ rest) p := by
  have last : code ∈ (loop (place ++ [code]) p).dropLast :=
    List.mem_of_getLast? ((getLast?_loop met).trans List.getLast?_concat)
  rw [loop_append met, List.append_assoc]
  exact List.mem_append_left _ last

/-! ## What was left -/

/-- What was left is not met again below a course that is entered. -/
theorem Left.enter (h : Left path s code) (fresh : target ∉ s.entered) :
    Left (path ++ [target]) (s.entering target) code := by
  refine ⟨List.mem_cons_of_mem _ h.1, fun met => ?_⟩
  rcases List.mem_append.1 met with met | met
  · exact h.2 met
  · exact fresh (List.mem_singleton.1 met ▸ h.1)

/-- No cycle that a search meets has a course that was left before. -/
theorem Explores.new_cycle {way : List String} (h : Explores g path targets s t) (hw : way ∈ t.cycles) :
    way ∈ s.cycles ∨ ∀ x ∈ way, ¬ Left path s x := by
  induction h with
  | done => exact .inl hw
  | @back path target rest s t met _ ih =>
    rcases ih hw with old | new
    · rcases List.mem_append.1 old with old | closed
      · exact .inl old
      · refine .inr fun x hx left => left.2 ?_
        obtain ⟨front, back, shape, way⟩ := loop_eq met
        rw [List.mem_singleton.1 closed, way] at hx
        rw [shape]
        simp only [List.mem_append, List.mem_cons, List.not_mem_nil, or_false] at hx ⊢
        tauto
    · exact .inr new
  | skip _ _ _ ih => exact ih hw
  | @enter path target rest s t v _ fresh _ below next ihb ihn =>
    rcases ihn hw with early | new
    · exact (ihb early).imp_right fun new x hx left => new x hx (left.enter fresh)
    · exact .inr fun x hx left => new x hx ⟨below.entered.subset (List.mem_cons_of_mem _ left.1), left.2⟩

/-- A course that is left is on the cycles that were met by then, and on no more. -/
theorem Explores.named_left (h : Explores g path targets s t) (left : Left path s code) :
    (∃ way ∈ t.cycles, code ∈ way) ↔ ∃ way ∈ s.cycles, code ∈ way := by
  constructor
  · rintro ⟨way, hw, hc⟩
    exact ⟨way, (h.new_cycle hw).resolve_right fun new => new code hc left, hc⟩
  · rintro ⟨way, hw, hc⟩
    exact ⟨way, h.cycles.subset hw, hc⟩

/-! ## The courses that are named -/

section

variable (sound : Sound g place (code :: targets) u) (fresh : code ∉ u.entered) (listed : code ∈ g.nodes)
  (below : Explores g (place ++ [code]) (g.next code) (u.entering code) t)
include sound fresh listed below

/-- A cycle that is met below a course and leads through it has no course that was left when the search came there. -/
theorem Sound.around (once : ∀ code, (g.next code).Nodup) {way : List String} (hw : way ∈ t.cycles)
    (hc : code ∈ way) : TransGen (fun a b => g.LeadsInside a b ∧ ¬ Left place u b) code code := by
  have after := below.sound once (sound.enter fresh listed)
  have new : ∀ x ∈ way, ¬ Left place u x := by
    rcases below.new_cycle hw with old | new
    · exact absurd ((sound.met way old).subset hc) fresh
    · exact fun x hx left => new x hx (left.enter fresh)
  have cycle : IsCycle (fun a b => g.LeadsInside a b ∧ ¬ Left place u b) way :=
    (after.met way hw).cycle.imp_of_mem fun x _ y hy leads =>
      ⟨⟨leads, after.listed ((after.met way hw).subset hy)⟩, new y hy⟩
  exact cycle.joined hc hc

/-- A course that requires itself through courses that were not left is on a cycle that is met below it. -/
theorem Sound.named (around : TransGen (fun a b => g.LeadsInside a b ∧ ¬ Left place u b) code code) :
    ∃ way ∈ t.cycles, code ∈ way := by
  by_contra unnamed
  obtain ⟨ahead, onward⟩ := below.closed (sound.enter fresh listed).path_subset
  have off : ∀ p ∈ place ++ [code], ∀ rest, loop (place ++ [code] ++ rest) p ∉ t.cycles :=
    fun p met rest closed => unnamed ⟨_, closed, mem_loop met⟩
  have new : ∀ y, y ∉ place ++ [code] → ¬ Left place u y → y ∉ (u.entering code).entered := by
    intro y away left old
    rw [List.mem_append, not_or, List.mem_singleton] at away
    exact left ⟨(List.mem_cons.1 old).resolve_left away.2, away.1⟩
  -- an edge back to the path would name the course, so the chain leads through newly entered courses for ever
  have all : ∀ y, TransGen (fun a b => g.LeadsInside a b ∧ ¬ Left place u b) code y →
      y ∈ t.entered ∧ y ∉ (u.entering code).entered := by
    intro y chain
    induction chain with
    | @single y h =>
      have away : y ∉ place ++ [code] := fun met => off y met [] (by simpa using (below.closes met).1 h.1.1)
      exact ⟨ahead y h.1.1 h.1.2, new y away h.2⟩
    | @tail x y _ h ih =>
      have away : y ∉ place ++ [code] := fun met =>
        ((below.closes met).2 x ih.1 ih.2 h.1.1).elim fun rest closed => off y met rest closed
      exact ⟨onward x ih.1 ih.2 y h.1, new y away h.2⟩
  exact (all code around).2 (List.mem_cons_self ..)

end

/-- A search that enters a course names it exactly if the course requires itself through courses that were not left
then: what comes later does not change whether the course is named. -/
theorem Enters.named_iff (once : ∀ code, (g.next code).Nodup) (h : Enters g code place u path targets s t)
    (sound : Sound g path targets s) :
    (∃ way ∈ t.cycles, code ∈ way) ↔
    TransGen (fun a b => g.LeadsInside a b ∧ ¬ Left place u b) code code := by
  induction h with
  | here off fresh listed below next =>
    rw [next.named_left ⟨below.entered.subset (List.mem_cons_self ..), off⟩]
    exact ⟨fun ⟨_, hw, hc⟩ => sound.around fresh listed below once hw hc, sound.named fresh listed below⟩
  | within off fresh listed below next ih =>
    have entered := sound.enter fresh listed
    rw [← ih entered]
    refine next.named_left ⟨below.entered.2, fun met => ?_⟩
    exact below.entered.1 (entered.path_subset (List.mem_append_left _ met))
  | past off fresh listed below _ ih =>
    exact ih (sound.leave fresh below (below.sound once (sound.enter fresh listed)))
  | back met _ ih => exact ih (sound.back once met)
  | skip _ _ _ ih => exact ih sound.skip

end CycleSearch

/-! ## The report -/

open CycleSearch

variable {g : CourseGraph} {code : String}

instance (g : CourseGraph) : DecidableRel g.LeadsInside :=
  fun a b => inferInstanceAs (Decidable (b ∈ g.next a ∧ b ∈ g.nodes))

/-- The search from all courses enters all of them. -/
theorem exists_first (kind : String → Prop) (listed : code ∈ g.nodes) (is : kind code) :
    ∃ code place u t, kind code ∧ Enters g code place u [] (starts g) {} t ∧ ∀ x ∈ u.entered, ¬ kind x := by
  obtain ⟨t, run, -⟩ := explores_cycles g
  have entered := (run.closed (List.nil_subset _)).1 code (mem_starts.2 listed) listed
  obtain ⟨code, place, u, is, enters, none⟩ := run.first (by simp) entered is
  exact ⟨code, place, u, t, is, enters, none⟩

/-- The report names a course exactly if the course requires itself through courses that the search had not left when it
came to this one. -/
theorem named_iff_of_enters (once : ∀ code, (g.next code).Nodup) {place : List String} {u t : CycleSearch}
    (enters : Enters g code place u [] (starts g) {} t) :
    (∃ way ∈ g.cycles, code ∈ way) ↔
    TransGen (fun a b => g.LeadsInside a b ∧ ¬ Left place u b) code code := by
  obtain ⟨t', run, cycles⟩ := explores_cycles g
  rw [← cycles, run.unique enters.explores]
  exact enters.named_iff once ⟨.nil, List.nil_subset _, .slnil, .nil, by simp, by simp, .nil, by simp⟩

/-- Every knot of courses that require each other has a cycle in the report: the one that its first course is on. -/
theorem exists_cycle_of_knot (once : ∀ code, (g.next code).Nodup) (around : TransGen g.LeadsInside code code) :
    ∃ way ∈ g.cycles, ∀ c ∈ way, TransGen g.LeadsInside code c ∧ TransGen g.LeadsInside c code := by
  have listed : code ∈ g.nodes := by cases around with | single h | tail _ h => exact h.2
  obtain ⟨c, place, u, t, knot, enters, none⟩ :=
    exists_first (fun c => TransGen g.LeadsInside code c ∧ TransGen g.LeadsInside c code) listed ⟨around, around⟩
  have fresh : TransGen (fun a b => g.LeadsInside a b ∧ ¬ Left place u b) c c := by
    refine TransGen.mono (fun x y h => ?_) _ _ (transGen_knot (knot.2.trans knot.1) .refl)
    exact ⟨h.1, fun left => none y left.1 ⟨knot.1.trans h.2.1, .trans_right h.2.2 knot.2⟩⟩
  obtain ⟨way, hw, hc⟩ := (named_iff_of_enters once enters).2 fresh
  refine ⟨way, hw, fun x hx => ?_⟩
  have cycle := isCycle_inside once hw
  exact ⟨knot.1.trans (cycle.joined hc hx), (cycle.joined hx hc).trans knot.2⟩

/-! ## The offenders among requirement trees -/

/-- The tree of a course mentions a course that is listed itself. -/
def MentionsInside (trees : List (String × Option Requirement)) (a b : String) : Prop :=
  Mentions trees a b ∧ b ∈ trees.map (·.1)

/-- A course requires another through a chain of listed courses. -/
def Requires (trees : List (String × Option Requirement)) : String → String → Prop :=
  TransGen (MentionsInside trees)

/-- Two courses require each other. -/
def Knotted (trees : List (String × Option Requirement)) (a b : String) : Prop :=
  Requires trees a b ∧ Requires trees b a

variable {trees : List (String × Option Requirement)}

theorem leadsInside_ofTrees (trees : List (String × Option Requirement)) :
    (ofTrees trees).LeadsInside = MentionsInside trees := by
  funext a b
  rw [LeadsInside, MentionsInside, leads_eq_mentions, nodes_ofTrees]

/-- Where no course of a knot mentions two courses of it, a cycle within the knot is the whole knot. -/
theorem mem_of_knot {way : List String} (cycle : IsCycle (MentionsInside trees) way)
    (knot : ∀ c ∈ way, Knotted trees code c)
    (one : ∀ x y z, Knotted trees code x → Knotted trees code y → Knotted trees code z → Mentions trees x y →
      Mentions trees x z → y = z) : code ∈ way := by
  have follow : ∀ x ∈ way, ∀ y, MentionsInside trees x y → Knotted trees code y → y ∈ way := by
    intro x hx y mentions hy
    obtain ⟨z, hz, next⟩ := cycle.successor hx
    exact one x y z (knot x hx) hy (knot z hz) mentions.1 next.1 ▸ hz
  obtain ⟨c, hc⟩ := List.exists_mem_of_length_pos (Nat.lt_of_lt_of_le (by decide) cycle.edge)
  have inside : ∀ y, Requires trees c y → ReflTransGen (MentionsInside trees) y c → Knotted trees code y :=
    fun y chain back => ⟨(knot c hc).1.trans chain, .trans_right back (knot c hc).2⟩
  -- the chain from `c` to the course stays in the knot, and each of its steps is the one along the cycle
  suffices all : ∀ y, TransGen (fun x y => MentionsInside trees x y ∧ Requires trees c y ∧
      ReflTransGen (MentionsInside trees) y c) c y → y ∈ way from
    all code (transGen_knot (knot c hc).2 (knot c hc).1.to_reflTransGen)
  intro y chain
  induction chain with
  | single h => exact follow c hc _ h.1 (inside _ h.2.1 h.2.2)
  | tail _ h ih => exact follow _ ih _ h.1 (inside _ h.2.1 h.2.2)

/-- The courses of the report require themselves, and every knot of courses that require each other has a cycle in the
report. A listed course is named there exactly if it requires itself through courses that the search had not left
when it came to this one. So all courses of a knot are named in which no course mentions two others. -/
theorem offenders_named (trees : List (String × Option Requirement)) :
    (∀ way ∈ (ofTrees trees).cycles, ∀ code ∈ way, Requires trees code code) ∧
    (∀ code, Requires trees code code → ∃ way ∈ (ofTrees trees).cycles, ∀ c ∈ way, Knotted trees code c) ∧
    (∀ code ∈ trees.map (·.1), ∃ place u t,
      Enters (ofTrees trees) code place u [] (starts (ofTrees trees)) {} t) ∧
    (∀ code place u t, Enters (ofTrees trees) code place u [] (starts (ofTrees trees)) {} t →
      ((∃ way ∈ (ofTrees trees).cycles, code ∈ way) ↔
        TransGen (fun a b => MentionsInside trees a b ∧ ¬ Left place u b) code code)) ∧
    (∀ code, Requires trees code code →
      (∀ x y z, Knotted trees code x → Knotted trees code y → Knotted trees code z → Mentions trees x y →
        Mentions trees x z → y = z) →
      ∃ way ∈ (ofTrees trees).cycles, code ∈ way) := by
  have once : ∀ code, ((ofTrees trees).next code).Nodup := nodup_next_ofTrees
  have knots : ∀ code, Requires trees code code → ∃ way ∈ (ofTrees trees).cycles, ∀ c ∈ way,
      Knotted trees code c := by
    intro code around
    rw [Requires, ← leadsInside_ofTrees] at around
    simpa only [leadsInside_ofTrees, Knotted, Requires] using exists_cycle_of_knot once around
  have cycles : ∀ way ∈ (ofTrees trees).cycles, IsCycle (MentionsInside trees) way :=
    fun way hw => leadsInside_ofTrees trees ▸ isCycle_inside once hw
  refine ⟨?sound, knots, ?enters, ?named, ?whole⟩
  case sound => exact fun way hw code hc => (cycles way hw).joined hc hc
  case enters =>
    intro code listed
    obtain ⟨_, place, u, t, rfl, enters, -⟩ := exists_first (· = code) (nodes_ofTrees ▸ listed) rfl
    exact ⟨place, u, t, enters⟩
  case named =>
    intro code place u t enters
    rw [named_iff_of_enters once enters, leadsInside_ofTrees]
  case whole =>
    intro code around one
    obtain ⟨way, hw, knot⟩ := knots code around
    exact ⟨way, hw, mem_of_knot (cycles way hw) knot one⟩

/-- Two cycles with a common course. The search leaves the common course before it comes to `CS 1003`. -/
def overlapping : List (String × Option Requirement) :=
  [("CS 1001", some (.all [.course "CS 1002" none, .course "CS 1003" none])),
    ("CS 1002", some (.course "CS 1001" none)), ("CS 1003", some (.course "CS 1002" none))]

/-- A course that requires itself and is in no cycle of the report. -/
theorem offender_unnamed :
    Requires overlapping "CS 1003" "CS 1003" ∧ (ofTrees overlapping).cycles = [["CS 1001", "CS 1002", "CS 1001"]] ∧
      ∀ way ∈ (ofTrees overlapping).cycles, "CS 1003" ∉ way := by
  have report : (ofTrees overlapping).cycles = [["CS 1001", "CS 1002", "CS 1001"]] := by
    have sorted : (ofTrees overlapping).nodes.Pairwise fun a b => decide (a ≤ b) = true := by decide +kernel
    rw [cycles, List.mergeSort_of_pairwise sorted]
    decide +kernel
  have around : ("CS 1003" :: ["CS 1002", "CS 1001"] ++ ["CS 1003"]).IsChain (ofTrees overlapping).LeadsInside := by
    decide +kernel
  refine ⟨?_, report, by rw [report]; decide⟩
  rw [Requires, ← leadsInside_ofTrees]
  exact transGen_of_isChain around

end CourseGraph
end DegreePlan
