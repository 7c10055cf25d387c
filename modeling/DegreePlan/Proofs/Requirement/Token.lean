import DegreePlan.Proofs.Requirement.Pieces

/-!
# Course tokens

A token is a course in any form that is taken for a code, perhaps with a minimum grade in any of its forms. Whatever
stands behind it, no separator begins within a token, and no choice begins with one.
-/

namespace DegreePlan.Requirement.Prose

open DegreePlan.Text

variable {a b cs gap rest w : List Char} {x : Char} {l : Letter}

/-! ## Minimum grades in any form -/

/-- The words in any case, with any blanks behind each of them. -/
inductive Worded : List (List Char) → List Char → Prop where
  | nil : Worded [] []
  | cons {word w gap cs : List Char} {words : List (List Char)} (spelled : w.map foldLetter = word) (blank : Blank gap)
    (later : Worded words cs) : Worded (word :: words) (w ++ (gap ++ cs))

theorem Worded.append {words words' : List (List Char)} (ha : Worded words a) (hb : Worded words' b) :
    Worded (words ++ words') (a ++ b) := by
  induction ha with
  | nil => exact hb
  | cons spelled blank _ ih => rw [List.append_assoc, List.append_assoc]; exact .cons spelled blank ih

/-- The words that a minimum grade is written with. -/
def minimumWords : List (List Char) := ["minimum".toList, "grade".toList, "of".toList, "min".toList, "imum".toList]

/-- The form of a minimum grade: words and a letter, between brackets or not. -/
inductive Form : List Char → Prop where
  | spelled {gap phrase rest : List Char} {words : List (List Char)} {x : Char} (blank : Blank gap)
    (listed : words ⊆ minimumWords) (written : Worded ("minimum".toList :: words) phrase)
    (letter : (passingLetter? x).isSome = true) (bare : Blank rest) : Form (gap ++ (phrase ++ x :: rest))
  | bracketed {gap front phrase back rest : List Char} {words : List (List Char)} {x : Char} (blank : Blank gap)
    (opened : Blank front) (listed : words ⊆ minimumWords) (written : Worded words phrase)
    (letter : (passingLetter? x).isSome = true) (closed : Blank back) (bare : Blank rest) :
    Form (gap ++ '(' :: (front ++ (phrase ++ x :: (back ++ ')' :: rest))))

theorem dropWhile_split (cs : List Char) : ∃ gap, Blank gap ∧ cs = gap ++ cs.dropWhile isBlank :=
  ⟨cs.takeWhile isBlank, blank_takeWhile cs, by rw [List.takeWhile_append_dropWhile]⟩

theorem afterBlanks?_split (h : afterBlanks? cs = some rest) : ∃ gap, Blank gap ∧ cs = gap ++ rest := by
  obtain ⟨-, rfl⟩ := afterBlanks?_eq_some h
  exact dropWhile_split cs

theorem form_of_spelled (blank : Blank gap) (h : spelledMinimum? cs = some l) : Form (gap ++ cs) := by
  simp only [spelledMinimum?, Option.bind_eq_bind, Option.bind_eq_some_iff] at h
  obtain ⟨c₁, first, c₂, gap₁, c₃, second, c₄, gap₂, c₅, third, c₆, gap₃, h⟩ := h
  obtain ⟨m, rfl, hm⟩ := afterWord?_eq_some.1 first
  obtain ⟨b₁, blank₁, rfl⟩ := afterBlanks?_split gap₁
  obtain ⟨g, rfl, hg⟩ := afterWord?_eq_some.1 second
  obtain ⟨b₂, blank₂, rfl⟩ := afterBlanks?_split gap₂
  obtain ⟨o, rfl, ho⟩ := afterWord?_eq_some.1 third
  obtain ⟨b₃, blank₃, rfl⟩ := afterBlanks?_split gap₃
  split at h
  · next x rest =>
    split at h
    · cases h
    · next bare =>
      have written :
          Worded ["minimum".toList, "grade".toList, "of".toList]
          (m ++ (b₁ ++ (g ++ (b₂ ++ (o ++ (b₃ ++ [])))))) :=
        .cons hm blank₁ (.cons hg blank₂ (.cons ho blank₃ .nil))
      have form := Form.spelled blank (by simp [minimumWords]) written (by rw [h]; rfl)
        (hasContent_eq_false.1 (by simpa using bare))
      simpa using form
  · cases h

/-- A word in one piece or in two, with the blanks behind it. -/
theorem worded_halves {word word' : List Char} (spelled : w.map foldLetter = word) (cs : List Char) : ∃ words phrase,
    w ++ cs = phrase ++ ((afterWord? word' cs).getD cs).dropWhile isBlank ∧ words ⊆ [word, word'] ∧
    Worded words phrase := by
  cases found : afterWord? word' cs with
  | none =>
    obtain ⟨gap, blank, split⟩ := dropWhile_split cs
    refine ⟨[word], w ++ (gap ++ []), ?_, by simp, .cons spelled blank .nil⟩
    rw [Option.getD_none, List.append_nil, List.append_assoc, ← split]
  | some rest =>
    obtain ⟨w', rfl, spelled'⟩ := afterWord?_eq_some.1 found
    obtain ⟨gap, blank, split⟩ := dropWhile_split rest
    refine ⟨[word, word'], w ++ ([] ++ (w' ++ (gap ++ []))), ?_, by simp,
      .cons spelled blank_nil (.cons spelled' blank .nil)⟩
    rw [Option.getD_some, List.append_nil, List.nil_append, List.append_assoc, List.append_assoc, ← split]

/-- A word that may be left out, with the blanks behind it. -/
theorem worded_optional (word cs : List Char) : ∃ words phrase,
    cs = phrase ++ ((afterWord? word cs).map (·.dropWhile isBlank)).getD cs ∧ words ⊆ [word] ∧
    Worded words phrase := by
  cases found : afterWord? word cs with
  | none => exact ⟨[], [], rfl, List.nil_subset _, .nil⟩
  | some rest =>
    obtain ⟨w, rfl, spelled⟩ := afterWord?_eq_some.1 found
    obtain ⟨gap, blank, split⟩ := dropWhile_split rest
    refine ⟨[word], w ++ (gap ++ []), ?_, by simp, .cons spelled blank .nil⟩
    rw [Option.map_some, Option.getD_some, List.append_nil, List.append_assoc, ← split]

theorem form_of_bracketed (blank : Blank gap) (h : bracketedMinimum? cs = some l) : Form (gap ++ cs) := by
  unfold bracketedMinimum? at h
  split at h
  · next inside =>
    obtain ⟨c₁, first, h⟩ := Option.bind_eq_some_iff.1 h
    obtain ⟨m, hi, hm⟩ := afterWord?_eq_some.1 first
    obtain ⟨front, opened, ht⟩ := dropWhile_split inside
    dsimp only at h
    -- the second half of the first word and the second word may be left out
    obtain ⟨words₁, p₁, start, listed₁, written₁⟩ := worded_halves hm c₁
    generalize ((afterWord? "imum".toList c₁).getD c₁).dropWhile isBlank = c₂ at h start
    obtain ⟨words₂, p₂, middle, listed₂, written₂⟩ := worded_optional "grade".toList c₂
    generalize ((afterWord? "grade".toList c₂).map (·.dropWhile isBlank)).getD c₂ = c₃ at h middle
    have listed : words₁ ++ words₂ ⊆ minimumWords :=
      List.append_subset.2 ⟨List.Subset.trans listed₁ (by simp [minimumWords]),
        List.Subset.trans listed₂ (by simp [minimumWords])⟩
    split at h
    · next x behind =>
      obtain ⟨back, closed, close⟩ := dropWhile_split behind
      split at h
      · next rest last =>
        split at h
        · cases h
        · next bare =>
          have form := Form.bracketed blank opened listed (written₁.append written₂) (by rw [h]; rfl) closed
            (hasContent_eq_false.1 (by simpa using bare))
          rw [ht, hi, start, middle, close, last]
          simpa using form
      · cases h
    · cases h
  · cases h

/-- What is read as a minimum grade has the form of one. -/
theorem form_of_minimum? (h : minimum? cs = some l) : Form cs := by
  obtain ⟨gap, blank, split⟩ := dropWhile_split cs
  rw [split]
  rcases Option.or_eq_some_iff.1 h with h | ⟨-, h⟩
  · exact form_of_spelled blank h
  · exact form_of_bracketed blank h

/-! ## Texts that no separator begins in -/

/-- No separator begins within the text, whatever stands behind it. -/
def Solid : List Char → Prop
  | [] => True
  | c :: w => (∀ b, afterSpacedOr? (c :: (w ++ b)) = none) ∧ Solid w

theorem Solid.append (ha : Solid a) (hb : Solid b) : Solid (a ++ b) := by
  induction a with
  | nil => exact hb
  | cons c a ih =>
    rw [List.cons_append]
    exact ⟨fun behind => by rw [List.append_assoc]; exact ha.1 _, ih ha.2⟩

theorem Solid.alternatives (h : Solid w) (b : List Char) :
    alternatives false (w ++ b) = attach w (alternatives false b) := by
  induction w with
  | nil => rw [List.nil_append, attach_nil]
  | cons c w ih => rw [List.cons_append, alternatives_over (h.1 b) (by simp), ih h.2, attach_attach]; rfl

theorem solid_of_shown (shown : ∀ c ∈ w, isBlank c = false) : Solid w := by
  induction w with
  | nil => trivial
  | cons c w ih =>
    obtain ⟨hc, hw⟩ := List.forall_mem_cons.1 shown
    exact ⟨fun b => by simp [afterSpacedOr?, hc], ih hw⟩

/-- A text that no separator begins in even if blanks stand before it. -/
structure Firm (w : List Char) : Prop where
  front : ∀ b, ∃ c ∈ (w ++ b).head?, isBlank c = false
  start : ∀ b, afterOr? (w ++ b) = none
  solid : Solid w

theorem Firm.behind (blank : Blank gap) (h : Firm w) : Solid (gap ++ w) := by
  induction gap with
  | nil => exact h.solid
  | cons c gap ih =>
    obtain ⟨hc, hg⟩ := List.forall_mem_cons.1 blank
    rw [List.cons_append]
    refine ⟨fun b => ?_, ih hg⟩
    rw [afterSpacedOr?, if_pos hc, List.append_assoc, ← List.cons_append, List.dropWhile_append_of_pos blank,
      dropWhile_of_some (h.front b), h.start]

theorem afterOr?_eq_none (h : afterWord? ['o', 'r'] cs = none) : afterOr? cs = none := by
  simp only [afterOr?, h]

/-- A letter other than the first of the separator is firm. -/
theorem firm_cons (shown : isBlank x = false) (other : foldLetter x ≠ 'o') (h : Solid w) : Firm (x :: w) where
  front b := ⟨x, by simp, shown⟩
  start b := by
    have : (foldLetter x == 'o') = false := by simpa using other
    exact afterOr?_eq_none (by simp [afterWord?, this])
  solid := ⟨fun b => by simp [afterSpacedOr?, shown], h⟩

theorem firm_letter (letter : (passingLetter? x).isSome = true) (h : Solid w) : Firm (x :: w) := by
  obtain ⟨l, hl⟩ := Option.isSome_iff_exists.1 letter
  refine firm_cons (passingLetter?_blank hl) (fun spelled => ?_) h
  have alpha := isAlpha_iff.1 (passingLetter?_alpha hl)
  rw [foldLetter_ascii (by omega)] at spelled
  rcases eq_or_of_toLower spelled with rfl | rfl <;> cases hl

/-- The words of a minimum grade are firm. -/
theorem firm_word (spelled : w.map foldLetter ∈ minimumWords) (h : Solid b) : Firm (w ++ b) := by
  have words : ∀ word ∈ minimumWords, (∀ c ∈ word, c.isAlpha = true) ∧ 2 ≤ word.length ∧
      word.take 2 ≠ ['o', 'r'] := by
    simp [minimumWords]
  obtain ⟨alpha, long, other⟩ := words _ spelled
  rw [List.length_map] at long
  obtain ⟨x, y, w, rfl⟩ : ∃ x y w', w = x :: y :: w' := by
    rcases w with _ | ⟨x, _ | ⟨y, w⟩⟩ <;> simp at long ⊢
  have shown : ∀ c ∈ x :: y :: w, isBlank c = false := fun c hc =>
    isBlank_of_isAlpha_foldLetter (alpha _ (List.mem_map_of_mem hc))
  refine ⟨fun behind => ⟨x, by simp, shown x (by simp)⟩, fun behind => afterOr?_eq_none ?_,
    (solid_of_shown shown).append h⟩
  rw [← Option.not_isSome_iff_eq_none, Option.isSome_iff_exists]
  rintro ⟨rest, found⟩
  obtain ⟨o, text, hs⟩ := afterWord?_eq_some.1 found
  obtain ⟨x', o, rfl, hx, hs⟩ := List.map_eq_cons_iff.1 hs
  obtain ⟨y', o, rfl, hy, -⟩ := List.map_eq_cons_iff.1 hs
  simp only [List.cons_append, List.cons.injEq] at text
  exact other (by simp [text.1, text.2.1, hx, hy])

theorem Worded.firm {words : List (List Char)} (written : Worded words a) (listed : words ⊆ minimumWords)
    (h : Firm b) : Firm (a ++ b) := by
  induction written with
  | nil => exact h
  | cons spelled blank _ ih =>
    obtain ⟨here, later⟩ := List.cons_subset.1 listed
    rw [List.append_assoc, List.append_assoc]
    exact firm_word (spelled ▸ here) ((ih later).behind blank)

/-- A character of the words of a minimum grade: a blank or what counts as a letter. -/
def Spoken (c : Char) : Prop := isBlank c = true ∨ (foldLetter c).isAlpha = true

theorem not_spoken_of_mark (h : x ∈ [';', '.', '(', ')']) : ¬ Spoken x := by
  have : ∀ c ∈ [';', '.', '(', ')'], isBlank c = false ∧ (foldLetter c).isAlpha = false := by
    simp [isBlank, foldLetter]
  simp [Spoken, this x h]

theorem not_mem_of_spoken (mark : x ∈ [';', '.', '(', ')']) (spoken : ∀ c ∈ cs, Spoken c) : x ∉ cs := fun hx =>
  not_spoken_of_mark mark (spoken x hx)

theorem spoken_of_blank (h : Blank gap) : ∀ c ∈ gap, Spoken c := fun c hc => .inl (h c hc)

theorem spoken_letter (letter : (passingLetter? x).isSome = true) : Spoken x := by
  obtain ⟨l, hl⟩ := Option.isSome_iff_exists.1 letter
  exact .inr (isAlpha_foldLetter (passingLetter?_alpha hl))

theorem Worded.spoken {words : List (List Char)} (written : Worded words a) (listed : words ⊆ minimumWords) :
    ∀ c ∈ a, Spoken c := by
  have alpha : ∀ word ∈ minimumWords, ∀ c ∈ word, c.isAlpha = true := by simp [minimumWords]
  induction written with
  | nil => simp
  | @cons word w gap cs words spelled blank _ ih =>
    obtain ⟨here, later⟩ := List.cons_subset.1 listed
    have word : ∀ c ∈ w, Spoken c := fun c hc => .inr (alpha _ here _ (spelled ▸ List.mem_map_of_mem hc))
    simpa [or_imp, forall_and] using ⟨word, spoken_of_blank blank, ih later⟩

theorem letter_plain (h : (foldLetter x).isAlpha = true) : isBlank x = false ∧ isDigit x = false := by
  refine ⟨isBlank_of_isAlpha_foldLetter h, ?_⟩
  rw [← Bool.not_eq_true]
  exact fun digit => Bool.false_ne_true ((Course.isAlpha_foldLetter_of_isDigit digit).symm.trans h)

/-- Behind blanks stands no digit, and not the first letter of the word for courses. -/
theorem follows_behind (blank : Blank gap) (plain : isBlank x = false ∧ isDigit x = false)
    (other : foldLetter x ≠ 'c') : Follows (gap ++ x :: rest) := by
  constructor
  · cases gap with
    | nil => simpa using plain.2
    | cons c gap =>
      have hc := blank c (by simp)
      have : isDigit c = false := by
        rw [← Bool.not_eq_true]
        exact fun digit => Bool.false_ne_true ((isBlank_of_isDigit digit).symm.trans hc)
      simpa using this
  · rw [List.dropWhile_append_of_pos blank, dropWhile_of_head (by simpa using plain.1)]
    simpa using other

namespace Form

theorem ne_nil (form : Form cs) : cs ≠ [] := by cases form <;> simp

/-- A minimum grade that ends with its letter or its bracket is solid. -/
theorem solid (form : Form cs) (back : ∀ c ∈ cs.getLast?, isBlank c = false) : Solid cs := by
  -- blanks at the end would be the last character
  have bare {a rest : List Char} (blank : Blank rest) (back : ∀ c ∈ (a ++ rest).getLast?, isBlank c = false) :
      rest = [] := by
    by_contra shown
    obtain ⟨c, hc⟩ := Option.isSome_iff_exists.1 (List.getLast?_isSome.2 shown)
    have last : c ∈ (a ++ rest).getLast? := by rw [List.getLast?_append_of_ne_nil _ shown]; exact hc
    exact Bool.false_ne_true ((back c last).symm.trans (blank c (List.mem_of_getLast? hc)))
  cases form with
  | @spelled gap phrase rest words x blank listed written letter blanks =>
    obtain rfl : rest = [] := bare (a := gap ++ (phrase ++ [x])) blanks (by simpa using back)
    exact (written.firm (List.cons_subset.2 ⟨by simp [minimumWords], listed⟩)
      (firm_letter (w := []) letter trivial)).behind blank
  | @bracketed gap front phrase closing rest words x blank opened listed written letter closed blanks =>
    obtain rfl : rest = [] :=
      bare (a := gap ++ '(' :: (front ++ (phrase ++ x :: (closing ++ [')'])))) blanks (by simpa using back)
    have bracket : Firm [')'] := firm_cons (by decide) (by decide) trivial
    have inside := written.firm listed (firm_letter letter (bracket.behind closed))
    exact (firm_cons (by decide) (by decide) (inside.behind opened)).behind blank

/-- The only marks of a minimum grade are the brackets around it. -/
theorem parts (form : Form cs) : (∀ c ∈ cs, Spoken c) ∨
    ∃ gap inside rest, cs = gap ++ '(' :: (inside ++ ')' :: rest) ∧ Blank gap ∧
      (∀ c ∈ inside, Spoken c) ∧ Blank rest := by
  cases form with
  | spelled blank listed written letter bare =>
    have words := written.spoken (List.cons_subset.2 ⟨by simp [minimumWords], listed⟩)
    refine .inl ?_
    simpa [or_imp, forall_and] using ⟨spoken_of_blank blank, words, spoken_letter letter, spoken_of_blank bare⟩
  | @bracketed gap front phrase back rest words x blank opened listed written letter closed bare =>
    refine .inr ⟨gap, front ++ (phrase ++ x :: back), rest, by simp, blank, ?_, bare⟩
    simpa [or_imp, forall_and] using ⟨spoken_of_blank opened, written.spoken listed, spoken_letter letter,
      spoken_of_blank closed⟩

theorem not_mem (form : Form cs) (mark : x = ';' ∨ x = '.') : x ∉ cs := by
  have silent {cs : List Char} : (∀ c ∈ cs, Spoken c) → x ∉ cs :=
    not_mem_of_spoken (by rcases mark with rfl | rfl <;> simp)
  rcases form.parts with spoken | ⟨gap, inside, rest, rfl, blank, spoken, bare⟩
  · exact silent spoken
  · have other : x ≠ '(' ∧ x ≠ ')' := by rcases mark with rfl | rfl <;> decide
    simpa [other] using ⟨silent (spoken_of_blank blank), silent spoken, silent (spoken_of_blank bare)⟩

/-- Every bracket of a minimum grade is closed. -/
theorem closed (form : Form cs) {front back : List Char} (split : cs = front ++ '(' :: back) : ')' ∈ back := by
  have silent {cs : List Char} : (∀ c ∈ cs, Spoken c) → '(' ∉ cs := not_mem_of_spoken (by simp)
  rcases form.parts with spoken | ⟨gap, inside, rest, rfl, blank, spoken, bare⟩
  · exact absurd (by simp [split]) (silent spoken)
  · rcases List.append_eq_append_iff.1 split with ⟨as, rfl, h⟩ | ⟨bs, rfl, h⟩
    · cases as with
      | nil => obtain ⟨-, rfl⟩ := List.cons.inj h; simp
      | cons c as =>
        obtain ⟨-, h⟩ := List.cons.inj h
        have inside' : '(' ∉ inside ++ ')' :: rest := by
          simpa using ⟨silent spoken, silent (spoken_of_blank bare)⟩
        exact absurd (by simp [h]) inside'
    · cases bs with
      | nil => obtain ⟨-, rfl⟩ := List.cons.inj h; simp
      | cons c bs =>
        obtain ⟨rfl, -⟩ := List.cons.inj h
        exact absurd (by simp) (silent (spoken_of_blank blank))

/-- A minimum grade begins neither like a digit nor like the word for courses. -/
theorem follows (form : Form cs) (b : List Char) : Follows (cs ++ b) := by
  cases form with
  | @spelled gap phrase rest words x blank listed written letter bare =>
    cases written with
    | @cons _ w _ later _ spelled _ _ =>
      obtain ⟨m, w, rfl, hm, -⟩ := List.map_eq_cons_iff.1 spelled
      simpa using follows_behind blank (letter_plain (by rw [hm]; decide)) (by rw [hm]; decide)
  | bracketed blank => simpa using follows_behind blank ⟨by decide, by decide⟩ (by decide)

end Form

/-! ## Brackets -/

theorem afterRemark?_eq_some (h : afterRemark? cs = some rest) :
    ∃ gap inside, Blank gap ∧ cs = gap ++ '(' :: (inside ++ ')' :: rest) := by
  obtain ⟨gap, blank, split⟩ := dropWhile_split cs
  unfold afterRemark? at h
  split at h
  · next inside opened =>
    split at h
    · next c behind closed =>
      obtain rfl := Option.some.inj h
      have here : c = ')' := by simpa [closed] using head_dropWhile (· != ')') inside
      refine ⟨gap, inside.takeWhile (· != ')'), blank, ?_⟩
      rw [here] at closed
      rw [← closed, List.takeWhile_append_dropWhile, ← opened, ← split]
    · cases h
  · cases h

theorem dropRemarks_some (h : afterRemark? cs = some rest) : dropRemarks cs = dropRemarks rest := by
  rw [dropRemarks]
  split
  · next h' => rw [h] at h'; cases h'; rfl
  · next h' => rw [h] at h'; cases h'

theorem dropRemarks_none (h : afterRemark? (x :: cs) = none) : dropRemarks (x :: cs) = x :: dropRemarks cs := by
  rw [dropRemarks]
  split
  · next h' => rw [h] at h'; cases h'
  · rfl

/-- Every opened bracket is closed, and the text does not end with blanks. -/
structure Closed (cs : List Char) : Prop where
  back : ∀ c ∈ cs.getLast?, isBlank c = false
  closes : ∀ u v, cs = u ++ '(' :: v → ')' ∈ v

theorem Closed.suffix (h : Closed (a ++ b)) : Closed b where
  back c hc := by
    refine h.back c ?_
    cases b with
    | nil => cases hc
    | cons d b => rwa [List.getLast?_append_of_ne_nil _ (by simp)]
  closes u v split := h.closes (a ++ u) v (by rw [split, List.append_assoc])

/-- What stands behind a text in which every bracket is closed does not count for its remarks. -/
theorem Closed.afterRemark? (h : Closed (x :: cs)) (b : List Char) :
    afterRemark? (x :: cs ++ b) = (afterRemark? (x :: cs)).map (· ++ b) := by
  have shown : (x :: cs).dropWhile isBlank ≠ [] := by
    intro none
    obtain ⟨c, hc⟩ := Option.isSome_iff_exists.1 (List.getLast?_isSome.2 (List.cons_ne_nil x cs))
    have blank := List.dropWhile_eq_nil_iff.1 none c (List.mem_of_getLast? hc)
    exact Bool.false_ne_true ((h.back c hc).symm.trans blank)
  obtain ⟨d, inside, hd⟩ := List.exists_cons_of_ne_nil shown
  have split : (x :: cs ++ b).dropWhile isBlank = d :: (inside ++ b) := by
    rw [List.dropWhile_append, hd]
    rfl
  by_cases opened : d = '('
  · subst opened
    have closes : ')' ∈ inside :=
      h.closes ((x :: cs).takeWhile isBlank) inside (by rw [← hd, List.takeWhile_append_dropWhile])
    have found : inside.dropWhile (· != ')') ≠ [] := by
      rw [Ne, List.dropWhile_eq_nil_iff]
      exact fun none => by simpa using none _ closes
    obtain ⟨c, rest, hc⟩ := List.exists_cons_of_ne_nil found
    simp only [Prose.afterRemark?, split, hd, List.dropWhile_append, hc]
    rfl
  · simp only [Prose.afterRemark?, split, hd]
    split
    · next h' => exact absurd (List.cons.inj h').1 opened
    · split
      · next h' => exact absurd (List.cons.inj h').1 opened
      · rfl

/-- A remark at the end of a text is dropped and nothing else changes. -/
theorem Closed.dropRemarks (h : Closed cs) (a : List Char) (outside : ')' ∉ a) :
    dropRemarks (cs ++ ' ' :: '(' :: (a ++ [')'])) = dropRemarks cs := by
  have remark : Prose.afterRemark? (' ' :: '(' :: (a ++ [')'])) = some [] := by
    have inside : ∀ c ∈ a, (c != ')') = true := fun c hc => by
      simp only [bne_iff_ne]
      rintro rfl
      exact outside hc
    have bracket : (' ' :: '(' :: (a ++ [')'])).dropWhile isBlank = '(' :: (a ++ [')']) :=
      dropWhile_space (by simp; decide)
    simp [Prose.afterRemark?, bracket, List.dropWhile_append_of_pos inside]
  induction length : cs.length using Nat.strong_induction_on generalizing cs with
  | _ n ih =>
    subst length
    cases cs with
    | nil => rw [List.nil_append, dropRemarks_some remark]
    | cons x cs =>
      have step := h.afterRemark? (' ' :: '(' :: (a ++ [')']))
      cases found : Prose.afterRemark? (x :: cs) with
      | some rest =>
        obtain ⟨gap, inside, -, split⟩ := afterRemark?_eq_some found
        have left : Closed rest := by
          have text : x :: cs = (gap ++ '(' :: (inside ++ [')'])) ++ rest := by rw [split]; simp
          exact Closed.suffix (text ▸ h)
        rw [found, Option.map_some] at step
        rw [dropRemarks_some step, dropRemarks_some found, ih _ (length_afterRemark?_lt found) left rfl]
      | none =>
        rw [found, Option.map_none, List.cons_append] at step
        rw [List.cons_append, dropRemarks_none step, dropRemarks_none found,
          ih _ (by simp) (Closed.suffix (a := [x]) h) rfl]

/-- A bracket that stays open stands behind every closing one. -/
theorem opened_behind {u v : List Char} (outside : ')' ∉ v) (same : a ++ ')' :: rest = u ++ '(' :: v) :
    ∃ u', u' ++ '(' :: v = rest := by
  rcases List.append_eq_append_iff.1 same with ⟨as, rfl, h⟩ | ⟨bs, -, h⟩
  · cases as with
    | nil => exact absurd (List.cons.inj h).1 (by decide)
    | cons c as => exact ⟨as, (List.cons.inj h).2.symm⟩
  · cases bs with
    | nil => exact absurd (List.cons.inj h).1 (by decide)
    | cons c bs => exact absurd (by rw [(List.cons.inj h).2]; simp) outside

/-- An open bracket stays. -/
theorem mem_dropRemarks {u v : List Char} (outside : ')' ∉ v) : '(' ∈ dropRemarks (u ++ '(' :: v) := by
  generalize text : u ++ '(' :: v = cs
  induction length : cs.length using Nat.strong_induction_on generalizing u cs with
  | _ n ih =>
    subst length
    cases found : afterRemark? cs with
    | some rest =>
      -- the bracket that is closed is another one, so the open one stands behind it
      obtain ⟨gap, inside, -, split⟩ := afterRemark?_eq_some found
      have both : (gap ++ '(' :: inside) ++ ')' :: rest = u ++ '(' :: v := by rw [text, split]; simp
      obtain ⟨u', rest'⟩ := opened_behind outside both
      rw [dropRemarks_some found]
      exact ih _ (length_afterRemark?_lt found) _ rest' rfl
    | none =>
      cases u with
      | nil =>
        subst text
        rw [List.nil_append, dropRemarks_none found]
        simp
      | cons c u =>
        subst text
        rw [List.cons_append] at found ⊢
        rw [dropRemarks_none found]
        exact List.mem_cons_of_mem _ (ih _ (by simp) _ rfl rfl)

/-! ## Tokens -/

/-- A course in any form that is taken for a code, perhaps with a minimum grade in any form. -/
structure Token where
  name : List Char
  form : List Char
  named : (Course.codeOfChars? name).isSome = true
  graded : form = [] ∨ (minimum? form).isSome = true ∧ ∀ c ∈ form.getLast?, isBlank c = false

/-- The text of a token. -/
def Token.text (t : Token) : List Char := t.name ++ t.form

/-- A department, a gap, a number and the form of a minimum grade, if there is one. -/
inductive Parts : List Char → Prop where
  | intro {letters gap number form : List Char} (named : Course.Named letters number) (separates : Course.Gap gap)
    (graded : form = [] ∨ Form form ∧ ∀ c ∈ form.getLast?, isBlank c = false) : Parts
    (letters ++ (gap ++ (number ++ form)))

theorem Token.parts (t : Token) : Parts t.text := by
  obtain ⟨code, hc⟩ := Option.isSome_iff_exists.1 t.named
  obtain ⟨letters, gap, number, named, separates, hn, -⟩ := Course.codeOfChars?_eq_some hc
  have text : t.text = letters ++ (gap ++ (number ++ t.form)) := by simp [Token.text, hn]
  rw [text]
  refine .intro named separates (t.graded.imp_right fun ⟨graded, back⟩ => ⟨?_, back⟩)
  obtain ⟨l, hl⟩ := Option.isSome_iff_exists.1 graded
  exact form_of_minimum? hl

/-- A number is firm. -/
theorem firm_number {letters number : List Char} (named : Course.Named letters number) (h : Solid b) :
    Firm (number ++ b) := by
  obtain ⟨d, number, rfl, digit⟩ := named.number_digit
  have shown : ∀ c ∈ number, isBlank c = false := fun c hc => named.number_chars c (List.mem_cons_of_mem d hc)
  refine firm_cons (isBlank_of_isDigit digit) (fun spelled => ?_) ((solid_of_shown shown).append h)
  have := Course.isAlpha_foldLetter_of_isDigit digit
  rw [spelled] at this
  exact absurd this (by decide)

/-- The mark between a department and a number is firm. -/
theorem firm_mark (mark : x = '-' ∨ x = '_') (h : Solid w) : Firm (x :: w) := by
  refine firm_cons ?_ ?_ h
  · rcases mark with rfl | rfl <;> decide
  · rcases mark with rfl | rfl <;> decide

theorem solid_graded {form : List Char}
    (graded : form = [] ∨ Form form ∧ ∀ c ∈ form.getLast?, isBlank c = false) : Solid form := by
  rcases graded with rfl | ⟨form, back⟩
  · trivial
  · exact form.solid back

namespace Parts

theorem digit (h : Parts cs) : ∃ c ∈ cs, isDigit c = true := by
  obtain @⟨letters, gap, number, form, named, -, -⟩ := h
  obtain ⟨d, rest, rfl, digit⟩ := named.number_digit
  exact ⟨d, by simp, digit⟩

/-- A token begins with a letter. -/
theorem front (h : Parts cs) : ∃ c rest, cs = c :: rest ∧ c.isAlpha = true := by
  obtain @⟨letters, gap, number, form, named, -, -⟩ := h
  obtain ⟨c, letters, rfl, alpha⟩ := named.department_letter
  exact ⟨c, _, rfl, alpha⟩

/-- A token ends neither with a blank nor with a full stop. -/
theorem back (h : Parts cs) : ∃ c ∈ cs.getLast?, isBlank c = false ∧ c ≠ '.' := by
  obtain @⟨letters, gap, number, form, named, -, graded⟩ := h
  rcases graded with rfl | ⟨form, back⟩
  · obtain ⟨digits, last, rfl, -, -, hl⟩ := Course.isNumber_split named.number
    refine ⟨last, by simp [List.getLast?_append], ?_, ?_⟩
    · rcases hl with hl | hl
      · exact isBlank_of_isDigit hl
      · exact isBlank_of_isAlpha hl
    · rintro rfl
      exact absurd hl (by decide)
  · obtain ⟨c, hc⟩ := Option.isSome_iff_exists.1 (List.getLast?_isSome.2 form.ne_nil)
    refine ⟨c, ?_, back c hc, ?_⟩
    · rw [List.getLast?_append_of_ne_nil _ (by simp [form.ne_nil]),
        List.getLast?_append_of_ne_nil _ (by simp [form.ne_nil]), List.getLast?_append_of_ne_nil _ form.ne_nil]
      exact hc
    · rintro rfl
      exact form.not_mem (.inr rfl) (List.mem_of_getLast? hc)

theorem solid (h : Parts cs) : Solid cs := by
  obtain @⟨letters, gap, number, form, named, separates, graded⟩ := h
  have tail := solid_graded graded
  refine (solid_of_shown fun c hc => isBlank_of_isAlpha (named.letters c hc)).append ?_
  cases separates with
  | blanks blank => exact (firm_number named tail).behind blank
  | mark blank mark blank' =>
    rw [List.append_assoc, List.cons_append]
    exact (firm_mark mark ((firm_number named tail).behind blank')).behind blank

/-- A department, a gap and a number have neither semicolons nor brackets. -/
theorem not_mem_name {letters gap number : List Char} (named : Course.Named letters number) (separates : Course.Gap gap)
    (mark : x = ';' ∨ x = '(') : x ∉ letters ++ (gap ++ number) := by
  have other : x.isAlpha = false ∧ isDigit x = false ∧ isBlank x = false ∧ x ≠ '-' ∧ x ≠ '_' := by
    rcases mark with rfl | rfl <;> decide
  have letter : x ∉ letters := fun hx => Bool.false_ne_true (other.1.symm.trans (named.letters x hx))
  have number : x ∉ number := fun hx => by
    rcases (Course.isNumber_chars named.number).2 x hx with hd | hl
    · exact Bool.false_ne_true (other.2.1.symm.trans hd)
    · exact Bool.false_ne_true (other.1.symm.trans (by rwa [← Course.isLetter_eq_isAlpha]))
  have blank {gap : List Char} (blank : Blank gap) : x ∉ gap :=
    fun hx => Bool.false_ne_true (other.2.2.1.symm.trans (blank x hx))
  cases separates with
  | blanks h => simpa using ⟨letter, blank h, number⟩
  | @mark gap gap' c h mark h' =>
    have this : x ≠ c := by rcases mark with rfl | rfl <;> simp [other]
    simpa [this] using ⟨letter, blank h, blank h', number⟩

theorem no_semicolon (h : Parts cs) : ';' ∉ cs := by
  obtain @⟨letters, gap, number, form, named, separates, graded⟩ := h
  have name := not_mem_name named separates (.inl rfl)
  have form : ';' ∉ form := by
    rcases graded with rfl | ⟨form, -⟩
    · simp
    · exact form.not_mem (.inl rfl)
  simp only [List.mem_append, not_or] at name ⊢
  exact ⟨name.1, name.2.1, name.2.2, form⟩

theorem closed (h : Parts cs) : Closed cs := by
  obtain ⟨last, hl, shown, -⟩ := h.back
  refine ⟨fun c hc => Option.mem_unique hl hc ▸ shown, fun u v split => ?_⟩
  obtain @⟨letters, gap, number, form, named, separates, graded⟩ := h
  have name := not_mem_name named separates (.inr rfl)
  rw [← List.append_assoc, ← List.append_assoc, List.append_assoc letters] at split
  -- the bracket stands in the minimum grade
  obtain ⟨u', opened⟩ : ∃ u', form = u' ++ '(' :: v := by
    rcases List.append_eq_append_iff.1 split with ⟨as, -, h⟩ | ⟨bs, h, h'⟩
    · exact ⟨as, h⟩
    · cases bs with
      | nil => exact ⟨[], h'.symm⟩
      | cons c bs =>
        obtain ⟨rfl, -⟩ := List.cons.inj h'
        exact absurd (by rw [h]; simp) name
  rcases graded with rfl | ⟨form, -⟩
  · simp at opened
  · exact form.closed opened

/-- A text that begins with a token is no choice. -/
theorem choice? (h : Parts cs) {tail : List Char} (follows : Follows tail) : choice? (cs ++ tail) = none := by
  obtain @⟨letters, gap, number, form, named, separates, graded⟩ := h
  have text : letters ++ (gap ++ (number ++ form)) ++ tail = letters ++ (gap ++ (number ++ (form ++ tail))) := by simp
  rw [text]
  refine choice?_named named separates ?_
  rcases graded with rfl | ⟨form, -⟩
  · exact follows
  · exact form.follows tail

end Parts

/-! ## Tokens among alternatives -/

/-- A text that begins like the separator, which leaves a rest that no course begins with. -/
structure Torn (cs rest : List Char) : Prop where
  taken : ∀ b, afterOr? (cs ++ b) = some (rest ++ b)
  front : ∃ c w, rest = c :: w ∧ (isDigit c = true ∨ c = '-' ∨ c = '_')
  solid : Solid rest

/-- Letters are taken for the separator if they are spelled so and a blank follows. -/
theorem letters_taken (letters : ∀ c ∈ a, c.isAlpha = true)
    (stop : ∀ c ∈ b.head?, (foldLetter c).isAlpha = false) (found : afterOr? (a ++ b) = some rest) :
    a.map foldLetter = ['o', 'r'] ∧ ∃ c ∈ b.head?, isBlank c = true := by
  obtain ⟨word, after, text, spelled, blank, shown, -⟩ := afterOr?_eq_some.1 found
  obtain ⟨c, after, rfl⟩ := List.exists_cons_of_ne_nil shown
  have first := blank c (by simp)
  have alpha : ∀ c ∈ word, (foldLetter c).isAlpha = true := by
    have each : ∀ l ∈ word.map foldLetter, l.isAlpha = true := by simp [spelled]
    exact List.forall_mem_map.1 each
  have edge : ∀ d ∈ (c :: after ++ rest).head?, (foldLetter d).isAlpha = false := by
    simpa using letterless_of_blank first
  obtain ⟨rfl, rfl⟩ := split_letters (fun c hc => isAlpha_foldLetter (letters c hc)) alpha stop edge text
  exact ⟨spelled, c, rfl, first⟩

/-- A token is torn behind a department that is spelled like the separator and has a blank behind it. -/
theorem torn_of_spelled {letters number form : List Char} (named : Course.Named letters number)
    (separates : Course.Gap gap) (tail : Solid form) (spelled : letters.map foldLetter = ['o', 'r'])
    (first : ∃ c ∈ gap.head?, isBlank c = true) :
    ∃ rest, Torn (letters ++ (gap ++ (number ++ form))) rest := by
  obtain ⟨c, hc, first⟩ := first
  cases separates with
  | blanks blank =>
    obtain ⟨d, rest, hn, digit⟩ := named.number_digit
    refine ⟨number ++ form, fun b => afterOr?_eq_some.2 ⟨letters, gap, by simp, spelled, blank, ?_, ?_⟩,
      ⟨d, _, by rw [hn]; rfl, .inl digit⟩, (firm_number named tail).solid⟩
    · rintro rfl
      cases hc
    · rw [hn]
      simpa using isBlank_of_isDigit digit
  | @mark gap gap' m blank mark blank' =>
    have plain : isBlank m = false := by rcases mark with rfl | rfl <;> decide
    refine ⟨m :: (gap' ++ (number ++ form)),
      fun b => afterOr?_eq_some.2 ⟨letters, gap, by simp, spelled, blank, ?_, ?_⟩,
      ⟨m, _, rfl, .inr mark⟩, (firm_mark mark ((firm_number named tail).behind blank')).solid⟩
    · rintro rfl
      obtain rfl : m = c := by simpa using hc
      exact Bool.false_ne_true (plain.symm.trans first)
    · simpa using plain

/-- The department of a token is taken for the separator if it is spelled so and a blank follows. -/
theorem Parts.firm_or_torn (h : Parts cs) : Firm cs ∨ ∃ rest, Torn cs rest := by
  have solid := h.solid
  obtain @⟨letters, gap, number, form, named, separates, graded⟩ := h
  by_cases taken : letters.map foldLetter = ['o', 'r'] ∧ ∃ c ∈ gap.head?, isBlank c = true
  · exact .inr (torn_of_spelled named separates (solid_graded graded) taken.1 taken.2)
  · obtain ⟨l, letters, rfl, alpha⟩ := named.department_letter
    refine .inl ⟨fun b => ⟨l, by simp, isBlank_of_isAlpha alpha⟩, fun b => ?_, solid⟩
    rw [← Option.not_isSome_iff_eq_none, Option.isSome_iff_exists]
    rintro ⟨rest, found⟩
    have text : l :: letters ++ (gap ++ (number ++ form)) ++ b =
        l :: letters ++ (gap ++ (number ++ (form ++ b))) := by simp
    rw [text] at found
    obtain ⟨spelled, c, hc, first⟩ := letters_taken named.letters (department_stop named separates _) found
    refine taken ⟨spelled, c, ?_, first⟩
    cases gap with
    | nil =>
      obtain ⟨d, number, rfl, digit⟩ := named.number_digit
      obtain rfl : d = c := by simpa using hc
      exact absurd first (by simp [isBlank_of_isDigit digit])
    | cons g gap => exact hc

/-- A token behind blanks is read over, or it is torn. -/
theorem Parts.pieces (h : Parts cs) {lead : List Char} (blank : Blank lead) :
    (∀ b, alternatives false (lead ++ (cs ++ b)) = attach (lead ++ cs) (alternatives false b)) ∨
      ∃ rest, Torn cs rest ∧
        ∀ b, alternatives false (lead ++ (cs ++ b)) = [] :: attach rest (alternatives false b) := by
  have whole (solid : Solid (lead ++ cs)) (b : List Char) :
      alternatives false (lead ++ (cs ++ b)) = attach (lead ++ cs) (alternatives false b) := by
    rw [← List.append_assoc, solid.alternatives]
  rcases h.firm_or_torn with firm | ⟨rest, torn⟩
  · exact .inl (whole (firm.behind blank))
  · cases lead with
    | nil => exact .inl (whole h.solid)
    | cons c lead =>
      refine .inr ⟨rest, torn, fun b => ?_⟩
      obtain ⟨d, w, rfl, alpha⟩ := h.front
      have front : ((c :: lead) ++ (d :: w ++ b)).dropWhile isBlank = d :: w ++ b := by
        rw [List.dropWhile_append_of_pos blank]
        exact dropWhile_of_head (by simpa using isBlank_of_isAlpha alpha)
      have here : afterSpacedOr? ((c :: lead) ++ (d :: w ++ b)) = some (rest ++ b) := by
        rw [List.cons_append, afterSpacedOr?, if_pos (blank c (by simp)), ← List.cons_append, front, torn.taken]
      rw [alternatives_or here, torn.solid.alternatives]

end DegreePlan.Requirement.Prose
