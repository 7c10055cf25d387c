import DegreePlan.Proofs.Requirement.Grammar
import DegreePlan.Proofs.Text.Lower

/-!
# The pieces of a cell

A cell that is no choice is read piece by piece: semicolons part its clauses, an `or` between blanks the alternatives of
a clause. What is read elsewhere does not depend on one piece, and what one piece means can be told from the whole.
-/

namespace DegreePlan.Requirement.Prose

open DegreePlan.Text

variable {a b cs lead rest sep w : List Char} {x : Char}

theorem alternatives_blank {commas : Bool} (blank : Blank cs) : alternatives commas cs = [cs] := by
  induction cs with
  | nil => exact alternatives_nil
  | cons c cs ih =>
    have here : afterSpacedOr? (c :: cs) = none := by
      rw [afterSpacedOr?, if_pos (blank c (by simp)), List.dropWhile_eq_nil_iff.2 blank]
      rfl
    have no_comma : c ≠ ',' := by rintro rfl; exact absurd (blank ',' (by simp)) (by decide)
    rw [alternatives_over here (by simp [no_comma]), ih fun d hd => blank d (List.mem_cons_of_mem c hd)]
    rfl

/-- The first alternative is the beginning of the text. -/
theorem prefix_of_alternatives {piece : List Char} {pieces : List (List Char)}
    (h : alternatives false cs = piece :: pieces) : piece <+: cs := by
  induction cs generalizing piece pieces with
  | nil =>
    rw [alternatives_nil] at h
    exact (List.cons.inj h).1 ▸ List.nil_prefix
  | cons c cs ih =>
    cases found : afterSpacedOr? (c :: cs) with
    | some rest =>
      rw [alternatives_or found] at h
      exact (List.cons.inj h).1 ▸ List.nil_prefix
    | none =>
      obtain ⟨first, others, split⟩ := List.exists_cons_of_ne_nil (alternatives_ne_nil false cs)
      rw [alternatives_over found (by simp), split] at h
      exact (List.cons.inj h).1 ▸ List.cons_prefix_cons.2 ⟨rfl, ih split⟩

theorem hasContent_eq_false : hasContent cs = false ↔ Blank cs := by simp [hasContent, Blank]

/-- `or` in any case with blanks before and behind it. -/
inductive Separator : List Char → Prop where
  | intro {before word after : List Char} (blank : Blank before) (shown : before ≠ [])
    (spelled : word.map foldLetter = ['o', 'r']) (blank' : Blank after) (shown' : after ≠ []) : Separator
    (before ++ (word ++ after))

theorem separator_or : Separator " or ".toList := by
  have spelled : ['o', 'r'].map foldLetter = ['o', 'r'] := by decide
  exact .intro blank_space (by simp) spelled blank_space (by simp)

theorem afterOr?_eq_some : afterOr? cs = some rest ↔ ∃ word after, cs = word ++ (after ++ rest) ∧
    word.map foldLetter = ['o', 'r'] ∧ Blank after ∧ after ≠ [] ∧ ∀ c ∈ rest.head?, isBlank c = false := by
  unfold afterOr?
  constructor
  · intro h
    split at h
    · next c behind found =>
      split at h
      · next hc =>
        obtain ⟨word, rfl, spelled⟩ := afterWord?_eq_some.1 found
        obtain rfl := Option.some.inj h
        refine ⟨word, c :: behind.takeWhile isBlank, by simp [List.takeWhile_append_dropWhile], spelled, ?_, by simp,
          head_dropWhile isBlank behind⟩
        exact List.forall_mem_cons.2 ⟨hc, blank_takeWhile behind⟩
      · cases h
    · cases h
  · rintro ⟨word, after, rfl, spelled, blank, shown, front⟩
    obtain ⟨c, after, rfl⟩ := List.exists_cons_of_ne_nil shown
    obtain ⟨hc, blank⟩ := List.forall_mem_cons.1 blank
    rw [afterWord?_append spelled]
    simp only [List.cons_append, hc, if_true, List.dropWhile_append_of_pos blank, dropWhile_of_head front]

/-- What stands behind the blanks and the separator at the beginning of a text. -/
theorem afterSpacedOr?_eq_some : afterSpacedOr? cs = some rest ↔
    ∃ sep, Separator sep ∧ cs = sep ++ rest ∧ ∀ c ∈ rest.head?, isBlank c = false := by
  constructor
  · intro h
    cases cs with
    | nil => cases h
    | cons c cs =>
      simp only [afterSpacedOr?] at h
      split at h
      · next hc =>
        obtain ⟨word, after, text, spelled, blank, shown, front⟩ := afterOr?_eq_some.1 h
        refine ⟨(c :: cs).takeWhile isBlank ++ (word ++ after),
          .intro (blank_takeWhile _) (by simp [hc]) spelled blank shown, ?_, front⟩
        rw [List.append_assoc, List.append_assoc, ← text, List.takeWhile_append_dropWhile]
      · cases h
  · rintro ⟨sep, ⟨blank, shown, spelled, blank', shown'⟩, rfl, front⟩
    obtain ⟨c, before, rfl⟩ := List.exists_cons_of_ne_nil shown
    rw [List.append_assoc, List.append_assoc, List.cons_append, afterSpacedOr?, if_pos (blank c (by simp)),
      ← List.cons_append, List.dropWhile_append_of_pos blank, dropWhile_of_head (front_of_fold spelled (by decide))]
    exact afterOr?_eq_some.2 ⟨_, _, rfl, spelled, blank', shown', front⟩

/-- A separator takes the blanks behind it along. -/
theorem Separator.taken (h : Separator sep) (rest : List Char) :
    afterSpacedOr? (sep ++ rest) = some (rest.dropWhile isBlank) := by
  refine afterSpacedOr?_eq_some.2 ⟨sep ++ rest.takeWhile isBlank, ?_, ?_, head_dropWhile isBlank rest⟩
  · cases h with
    | intro blank shown spelled blank' shown' =>
      rw [List.append_assoc, List.append_assoc]
      exact .intro blank shown spelled (blank'.append (blank_takeWhile rest)) (by simp [shown'])
  · rw [List.append_assoc, List.takeWhile_append_dropWhile]

/-! ## Clauses -/

/-- A text without a semicolon is the beginning of its clause. -/
theorem cutAt_over (h : ';' ∉ a) (b : List Char) : cutAt (· == ';') (a ++ b) = attach a (cutAt (· == ';') b) := by
  obtain ⟨piece, pieces, hb⟩ := List.exists_cons_of_ne_nil (cutAt_ne_nil (· == ';') b)
  induction a with
  | nil => rw [List.nil_append, hb]; rfl
  | cons c a ih =>
    have other : (c == ';') = false := by
      rw [beq_eq_false_iff_ne]
      rintro rfl
      exact h (by simp)
    rw [List.cons_append, cutAt, other, ih fun hc => h (List.mem_cons_of_mem _ hc), hb]
    rfl

theorem cutAt_semicolon (b : List Char) : cutAt (· == ';') (';' :: b) = [] :: cutAt (· == ';') b := rfl

/-- A semicolon ends a clause. -/
theorem cutAt_behind (h : ';' ∉ a) (b : List Char) :
    cutAt (· == ';') (a ++ ';' :: b) = a :: cutAt (· == ';') b := by
  rw [cutAt_over h, cutAt_semicolon]
  exact congrArg (· :: _) (List.append_nil a)

theorem joined_injective {connective : Connective} {rs rs' : List Requirement} (length : rs.length = rs'.length)
    (same : joined connective rs = joined connective rs') : rs = rs' := by
  rcases rs with _ | ⟨r, _ | ⟨s, rs⟩⟩ <;> rcases rs' with _ | ⟨r', _ | ⟨s', rs'⟩⟩ <;> simp at length
  · rfl
  · exact congrArg (fun r => [r]) same
  · cases connective <;> injection same

/-- What a loop gives for one of its pieces does not depend on the others. -/
theorem mapM_around {α β : Type} {f : α → Except Fault β} {l r : List α} {p : α} {ys : List β} :
    (l ++ p :: r).mapM f = .ok ys ↔
      ∃ as y bs, l.mapM f = .ok as ∧ f p = .ok y ∧ r.mapM f = .ok bs ∧ ys = as ++ y :: bs := by
  simp only [List.mapM_append, List.mapM_cons, bind_eq_ok, pure_eq_ok]
  constructor
  · rintro ⟨as, ha, _, ⟨y, hy, bs, hb, rfl⟩, rfl⟩
    exact ⟨as, y, bs, ha, hy, hb, rfl⟩
  · rintro ⟨as, y, bs, ha, hy, hb, rfl⟩
    exact ⟨as, ha, _, ⟨y, hy, bs, hb, rfl⟩, rfl⟩

/-- A clause means any of what its pieces mean. -/
theorem readClause_eq_ok {before after : List (List Char)} {piece : List Char} {r : Requirement}
    (pieces : alternatives false cs = before ++ piece :: after) (shown : hasContent piece = true) :
    readClause cs = .ok r ↔ ∃ as leaf bs, (before.filter hasContent).mapM readCourse = .ok as ∧
      readCourse piece = .ok leaf ∧
      (after.filter hasContent).mapM readCourse = .ok bs ∧ r = joined .any (as ++ leaf :: bs) := by
  rw [readClause, pieces, List.filter_append, List.filter_cons_of_pos shown, bind_eq_ok]
  simp only [mapM_around]
  constructor
  · rintro ⟨_, ⟨as, leaf, bs, ha, hl, hb, rfl⟩, h⟩
    split at h
    · next none => simp at none
    · rw [single_eq_joined (by simp)] at h
      exact ⟨as, leaf, bs, ha, hl, hb, (Except.ok.inj h).symm⟩
  · rintro ⟨as, leaf, bs, ha, hl, hb, rfl⟩
    refine ⟨_, ⟨as, leaf, bs, ha, hl, hb, rfl⟩, ?_⟩
    split
    · next none => simp at none
    · exact single_eq_joined (by simp)

/-- Reads a cell that is neither a choice nor refused as a whole. -/
def readClauses (cs : List Char) : Except Fault (Option Requirement) := do
  match ← ((cutAt (· == ';') cs).filter hasContent).mapM readClause with
  | [] => return none
  | clauses => return some (← single .all clauses)

/-- A cell means all of what its clauses mean. -/
theorem readClauses_eq_ok {t : Option Requirement} : readClauses cs = .ok t ↔
    ∃ rs, ((cutAt (· == ';') cs).filter hasContent).mapM readClause = .ok rs ∧
      t = if rs = [] then none else some (joined .all rs) := by
  rw [readClauses, bind_eq_ok]
  refine exists_congr fun rs => and_congr_right fun _ => ?_
  cases rs with
  | nil =>
    dsimp only
    rw [pure_eq_ok, if_pos rfl, eq_comm]
  | cons r rs =>
    dsimp only
    rw [single_eq_joined (by simp), ok_bind, pure_eq_ok, if_neg (by simp), eq_comm]

/-- What a cell means if one of its courses means `leaf`, by the clauses and the alternatives around that course. -/
def Means (clauses options options' clauses' : List (List Char)) (leaf : Requirement) (t : Option Requirement) : Prop :=
  ∃ as cs ds bs, (clauses.filter hasContent).mapM readClause = .ok as ∧
    (options.filter hasContent).mapM readCourse = .ok cs ∧
    (options'.filter hasContent).mapM readCourse = .ok ds ∧ (clauses'.filter hasContent).mapM readClause = .ok bs ∧
    t = some (joined .all (as ++ joined .any (cs ++ leaf :: ds) :: bs))

theorem readClauses_iff {clauses options options' clauses' : List (List Char)} {clause piece : List Char}
    {t : Option Requirement} (cut : cutAt (· == ';') cs = clauses ++ clause :: clauses')
    (shown : hasContent clause = true) (pieces : alternatives false clause = options ++ piece :: options')
    (shown' : hasContent piece = true) :
    readClauses cs = .ok t ↔ ∃ leaf, readCourse piece = .ok leaf ∧
    Means clauses options options' clauses' leaf t := by
  rw [readClauses_eq_ok, cut, List.filter_append, List.filter_cons_of_pos shown]
  simp only [mapM_around, readClause_eq_ok pieces shown', Means]
  constructor
  · rintro ⟨_, ⟨as, _, bs, ha, ⟨cs, leaf, ds, hc, hl, hd, rfl⟩, hb, rfl⟩, rfl⟩
    exact ⟨leaf, hl, as, cs, ds, bs, ha, hc, hd, hb, by simp⟩
  · rintro ⟨leaf, hl, as, cs, ds, bs, ha, hc, hd, hb, rfl⟩
    exact ⟨_, ⟨as, _, bs, ha, ⟨cs, leaf, ds, hc, hl, hd, rfl⟩, hb, rfl⟩, by simp⟩

/-- The course can be told from what the cell means. -/
theorem Means.unique {clauses options options' clauses' : List (List Char)} {leaf leaf' : Requirement}
    {t : Option Requirement} (h : Means clauses options options' clauses' leaf t)
    (h' : Means clauses options options' clauses' leaf' t) : leaf = leaf' := by
  obtain ⟨as, cs, ds, bs, ha, hc, hd, hb, rfl⟩ := h
  obtain ⟨as', cs', ds', bs', ha', hc', hd', hb', same⟩ := h'
  obtain rfl := Except.ok.inj (ha.symm.trans ha')
  obtain rfl := Except.ok.inj (hb.symm.trans hb')
  obtain rfl := Except.ok.inj (hc.symm.trans hc')
  obtain rfl := Except.ok.inj (hd.symm.trans hd')
  have clause := joined_injective (by simp) (Option.some.inj same)
  simp only [List.append_cancel_left_eq, List.cons.injEq, and_true] at clause
  have course := joined_injective (by simp) clause
  simpa using course

/-! ## Unsupported words -/

/-- No unsupported word occurs in the text, in any case. -/
def Silent (cs : List Char) : Prop := ∀ word ∈ unsupportedWords, ¬ word.toList <:+: cs.flatMap lowerChar

theorem silent_nil : Silent [] := by simp [Silent, unsupportedWords]

theorem unsupported_letters : ∀ word ∈ unsupportedWords, ∀ c ∈ word.toList, c.isAlpha = true ∨ c = '-' := by
  simp [unsupportedWords]

theorem silent_iff : Silent cs ↔
    (unsupportedWords.any fun word => hasInfix word.toList (lower (String.ofList cs)).toList) = false := by
  simp only [List.any_eq_false, hasInfix_iff]
  refine forall₂_congr fun word hw => not_congr (infix_lower fun c hc => ?_).symm
  rcases unsupported_letters word hw c hc with alpha | rfl
  · have := isAlpha_iff.1 alpha
    omega
  · decide

/-- A character that has no case and is in no unsupported word. -/
structure Mute (x : Char) : Prop where
  same : lowerChar x = [x]
  other : ∀ word ∈ unsupportedWords, x ∉ word.toList

theorem silent_cut (mute : Mute x) : Silent (a ++ x :: b) ↔ Silent a ∧ Silent b := by
  have cut : (a ++ x :: b).flatMap lowerChar = a.flatMap lowerChar ++ x :: b.flatMap lowerChar := by
    rw [List.flatMap_append, List.flatMap_cons, mute.same]
    rfl
  simp only [Silent, cut, ← forall₂_and]
  refine forall₂_congr fun word hw => ?_
  rw [← not_or]
  refine not_congr ⟨infix_of_cut (mute.other word hw), fun found => ?_⟩
  rcases found with found | found
  · exact found.trans (List.prefix_append _ _).isInfix
  · exact found.trans ((List.suffix_cons x _).trans (List.suffix_append _ _)).isInfix

theorem mute_of_isBlank (h : isBlank x = true) : Mute x := by
  refine ⟨lowerChar_of_isBlank h, fun word hw hx => ?_⟩
  rcases unsupported_letters word hw x hx with alpha | rfl
  · exact Bool.false_ne_true ((isBlank_of_isAlpha alpha).symm.trans h)
  · exact absurd h (by decide)

theorem mute_of_mark (h : x ∈ [';', '(', ')', '.']) : Mute x := by
  have plain : ∀ c ∈ [';', '(', ')', '.'], c.toNat < 0x80 ∧ c.isAlpha = false ∧ c ≠ '-' := by simp
  obtain ⟨ascii, letterless, other⟩ := plain x h
  refine ⟨lowerChar_of_not_isAlpha ascii letterless, fun word hw hx => ?_⟩
  rcases unsupported_letters word hw x hx with alpha | rfl
  · exact Bool.false_ne_true (letterless.symm.trans alpha)
  · exact other rfl

/-! ## Whole cells -/

/-- A text with a character that lower case leaves alone does not say that nothing is required if no such text has
it. -/
theorem not_nothing_of_mem (hx : x ∈ cs) (same : lowerChar x = [x]) (plain : x.toNat < 0x3C2 ∨ 0x3C3 < x.toNat)
    (other : ∀ word ∈ nothing, x ∉ word.toList) : nothing.contains (lower (String.ofList cs)) = false := by
  have among : [x] <:+: cs.flatMap lowerChar := by
    obtain ⟨l, r, rfl⟩ := List.append_of_mem hx
    rw [List.flatMap_append, List.flatMap_cons, same]
    exact ⟨_, _, by rw [List.append_assoc]⟩
  rw [← Bool.not_eq_true, List.contains_iff_mem]
  exact fun found => other _ found (((infix_lower (by simpa using plain)).2 among).subset (by simp))

/-- A text with a digit does not say that nothing is required. -/
theorem not_nothing_of_digit (digit : ∃ c ∈ cs, isDigit c = true) :
    nothing.contains (lower (String.ofList cs)) = false := by
  obtain ⟨c, hc, digit⟩ := digit
  have no_digit : ∀ word ∈ nothing, ∀ c ∈ word.toList, isDigit c = false := by
    simp [nothing, isDigit, digitValue?]
  refine not_nothing_of_mem hc (lowerChar_of_isDigit digit).1 ?_ fun word hw found => ?_
  · have beyond : ∀ z ∈ digitZeros, 0x3C3 < z := by decide
    rcases isDigit_cases digit with range | ⟨z, hz, range⟩
    · omega
    · have := beyond z hz
      omega
  · exact Bool.false_ne_true ((no_digit word hw c found).symm.trans digit)

/-- A cell that requires something in supported words and is no choice is read clause by clause. -/
theorem ofProse_eq_readClauses {text : String}
    (needed : nothing.contains (lower (String.ofList (trim text.toList))) = false)
    (quiet : (unsupportedWords.any fun word =>
      hasInfix word.toList (lower (String.ofList (trim text.toList))).toList) = false) (other : choice?
        (trim text.toList) = none) : ofProse text = readClauses (trim text.toList) := by
  simp only [ofProse, needed, quiet, Bool.false_eq_true, if_false, other]
  rfl

/-- A cell with a digit that is no choice is read clause by clause, unless it has an unsupported word. -/
theorem ofProse_clauses (trimmed : trim cs = w) (digit : ∃ c ∈ w, isDigit c = true)
    (other : choice? w = none) {t : Option Requirement} :
    ofProse (String.ofList cs) = .ok t ↔ Silent w ∧ readClauses w = .ok t := by
  have text : trim (String.ofList cs).toList = w := by rw [String.toList_ofList, trimmed]
  have needed := not_nothing_of_digit digit
  rw [silent_iff]
  cases quiet : unsupportedWords.any fun word => hasInfix word.toList (lower (String.ofList w)).toList with
  | false =>
    rw [← text] at needed quiet other ⊢
    rw [ofProse_eq_readClauses needed quiet other]
    simp
  | true =>
    simp only [ofProse, text, needed, quiet, Bool.false_eq_true, if_false, if_true]
    simp [bind_eq_ok]

end DegreePlan.Requirement.Prose
