import DegreePlan.Proofs.Course.Code
import DegreePlan.Requirement.Prose

/-!
# Reading clauses of prose

A clause is read word by word: blanks, `or` and blanks part its alternatives and nothing else does. A course
is read off the front of an alternative, in whatever case it is written, and a minimum grade off its end.
-/

namespace DegreePlan.Requirement.Prose

open DegreePlan.Text

variable {commas : Bool} {a b cs w lead rest : List Char} {c : Char}

/-! ## Alternatives -/

/-- Puts a text in front of the first of several pieces. -/
def attach (a : List Char) : List (List Char) → List (List Char)
  | [] => [a]
  | piece :: pieces => (a ++ piece) :: pieces

theorem attach_attach (a b : List Char) (pieces : List (List Char)) :
    attach a (attach b pieces) = attach (a ++ b) pieces := by
  cases pieces <;> simp [attach]

/-- Cutting a text at a separator, and reading over a character where none stands. -/
theorem alternatives_or (h : afterSpacedOr? cs = some rest) :
    alternatives commas cs = [] :: alternatives commas rest := by
  rw [alternatives]
  split
  · next h' => rw [h] at h'; cases h'; rfl
  · next h' => rw [h] at h'; cases h'

theorem alternatives_over (h : afterSpacedOr? (c :: cs) = none) (no_comma : (commas && c == ',') = false) :
    alternatives commas (c :: cs) = attach [c] (alternatives commas cs) := by
  rw [alternatives]
  split
  · next h' => rw [h] at h'; cases h'
  · simp only [no_comma, Bool.false_eq_true, if_false]
    cases alternatives commas cs <;> rfl

theorem alternatives_ne_nil (commas : Bool) (cs : List Char) : alternatives commas cs ≠ [] := by
  rw [alternatives]
  split
  · simp
  · split
    · simp
    · split
      · simp
      · split <;> simp

theorem attach_nil (commas : Bool) (cs : List Char) : attach [] (alternatives commas cs) = alternatives commas cs := by
  obtain ⟨piece, pieces, h⟩ := List.exists_cons_of_ne_nil (alternatives_ne_nil commas cs)
  rw [h]
  rfl

/-- A word that stands for itself: not empty, without blanks and commas, and not `or`. -/
structure Word (w : List Char) : Prop where
  shown : w ≠ []
  plain : ∀ c ∈ w, isBlank c = false ∧ c ≠ ','
  other : w.map foldLetter ≠ ['o', 'r']

/-- The text ends or goes on with a blank. -/
def Edge (b : List Char) : Prop := ∀ c ∈ b.head?, isBlank c = true

/-- No separator begins at a word. -/
theorem Word.afterOr? (h : Word w) (edge : Edge b) : afterOr? (w ++ b) = none := by
  unfold Prose.afterOr?
  split
  · next c rest found =>
    obtain ⟨o, ho, spelled⟩ := afterWord?_eq_some.1 found
    obtain ⟨x, o, rfl, hx, spelled⟩ := List.map_eq_cons_iff.1 spelled
    obtain ⟨y, o, rfl, hy, spelled⟩ := List.map_eq_cons_iff.1 spelled
    obtain rfl := List.map_eq_nil_iff.1 spelled
    -- the letters of the separator are not blank, so the word has them and is followed by its blank
    have blankless {z : Char} (hz : (foldLetter z).isAlpha = true) (front : z ∈ b.head?) : False := by
      have := isBlank_of_isAlpha_foldLetter hz
      rw [edge z front] at this
      cases this
    rcases w with _ | ⟨x', _ | ⟨y', w⟩⟩
    · exact absurd rfl h.shown
    · obtain ⟨rfl, hb⟩ := List.cons.inj ho
      exact (blankless (z := y) (by rw [hy]; decide) (by simp at hb; simp [hb])).elim
    · obtain ⟨rfl, tail⟩ := List.cons.inj ho
      obtain ⟨rfl, behind⟩ := List.cons.inj tail
      cases w with
      | nil => exact absurd (by simp [hx, hy]) h.other
      | cons z w =>
        obtain ⟨rfl, -⟩ := List.cons.inj behind
        rw [(h.plain z (by simp)).1, if_neg Bool.false_ne_true]
  · rfl

/-- Texts without blanks and commas are read over. -/
theorem alternatives_plain (plain : ∀ c ∈ w, isBlank c = false ∧ c ≠ ',') :
    alternatives commas (w ++ b) = attach w (alternatives commas b) := by
  induction w with
  | nil => rw [List.nil_append, attach_nil]
  | cons c w ih =>
    obtain ⟨hc, hw⟩ := List.forall_mem_cons.1 plain
    have here : afterSpacedOr? (c :: (w ++ b)) = none := by simp [afterSpacedOr?, hc.1]
    rw [List.cons_append, alternatives_over here (by simp [hc.2]), ih hw, attach_attach, List.singleton_append]

/-- Blanks and the word behind them are read over. -/
theorem alternatives_word (blank : ∀ c ∈ lead, isBlank c = true) (h : Word w) (edge : Edge b) :
    alternatives commas (lead ++ (w ++ b)) = attach (lead ++ w) (alternatives commas b) := by
  have front : ∀ c ∈ (w ++ b).head?, isBlank c = false := by
    obtain ⟨c, w', rfl⟩ := List.exists_cons_of_ne_nil h.shown
    simpa using (h.plain c (by simp)).1
  induction lead with
  | nil => exact alternatives_plain h.plain
  | cons c lead ih =>
    obtain ⟨hc, hl⟩ := List.forall_mem_cons.1 blank
    have here : afterSpacedOr? (c :: (lead ++ (w ++ b))) = none := by
      have gap : ∀ d ∈ c :: lead, isBlank d = true := blank
      rw [afterSpacedOr?, if_pos hc, ← List.cons_append, List.dropWhile_append_of_pos gap,
        dropWhile_of_head front, h.afterOr? edge]
    have no_comma : c ≠ ',' := by rintro rfl; exact absurd hc (by decide)
    rw [List.cons_append, alternatives_over here (by simp [no_comma]), ih hl, attach_attach]
    rfl

/-- Words, each behind a space. -/
def spaced (ws : List (List Char)) : List Char := ws.flatMap (' ' :: ·)

theorem edge_spaced (ws : List (List Char)) (edge : Edge b) : Edge (spaced ws ++ b) := by
  cases ws with
  | nil => exact edge
  | cons w ws => simp [spaced, Edge]; decide

/-- Words are read over. -/
theorem alternatives_spaced {ws : List (List Char)} (words : ∀ w ∈ ws, Word w) (edge : Edge b) :
    alternatives commas (spaced ws ++ b) = attach (spaced ws) (alternatives commas b) := by
  induction ws with
  | nil => rw [spaced, List.flatMap_nil, List.nil_append, attach_nil]
  | cons w ws ih =>
    obtain ⟨hw, hws⟩ := List.forall_mem_cons.1 words
    have split : spaced (w :: ws) ++ b = [' '] ++ (w ++ (spaced ws ++ b)) := by simp [spaced]
    rw [split, alternatives_word (by simp; decide) hw (edge_spaced ws edge), ih hws, attach_attach]
    simp [spaced]

/-- The separator in any case. -/
theorem afterSpacedOr?_separator {sep : List Char} (h : Alike sep " or ".toList)
    (front : ∀ c ∈ rest.head?, isBlank c = false) : afterSpacedOr? (sep ++ rest) = some rest := by
  obtain ⟨s, sep, rfl, hs, h⟩ := Alike.cut (show Alike sep (' ' :: ['o', 'r', ' ']) from h)
  obtain ⟨word, last, rfl, hw, hl⟩ := Alike.split (show Alike sep (['o', 'r'] ++ [' ']) from h)
  obtain ⟨t, nothing, rfl, ht, hn⟩ := hl.cut
  obtain rfl := hn.nil
  obtain rfl : s = ' ' := eq_of_toLower hs (by decide)
  obtain rfl : t = ' ' := eq_of_toLower ht (by decide)
  have spelled : word.map foldLetter = ['o', 'r'] := hw.fold (by simp)
  have text : (' ' :: (word ++ [' ']) ++ rest).dropWhile isBlank = word ++ (' ' :: rest) := by
    rw [List.cons_append, List.append_assoc, dropWhile_space (front_of_fold spelled (by decide))]
    rfl
  rw [List.cons_append] at text ⊢
  simp only [afterSpacedOr?, isBlank_space, if_true, text, Prose.afterOr?, afterWord?_append spelled,
    dropWhile_of_head front]

/-! ## Minimum grades -/

/-- No minimum begins at a text that is no bracket and has too few letters in front for the word. -/
theorem minimum?_none (drop : cs.dropWhile isBlank = a ++ b) (letters : ∀ c ∈ a, c.isAlpha = true)
    (short : a.length < 7) (edge : b = [] ∨ ∃ x rest, b = x :: rest ∧ (foldLetter x).isAlpha = false ∧
      (a = [] → x ≠ '(')) : minimum? cs = none := by
  have spelled : spelledMinimum? (a ++ b) = none := by
    have no_word : afterWord? "minimum".toList (a ++ b) = none := by
      refine afterWord?_none short (edge.imp_right fun ⟨x, rest, hb, hx, _⟩ => ⟨x, rest, hb, fun hm => ?_⟩)
      exact absurd hx (by simpa using (show ∀ w ∈ "minimum".toList, w.isAlpha = true by simp) _ hm)
    simp only [spelledMinimum?, no_word, Option.bind_eq_bind, Option.bind_none]
  have bracketed : bracketedMinimum? (a ++ b) = none := by
    unfold bracketedMinimum?
    split
    · next rest h =>
      cases a with
      | nil =>
        rcases edge with rfl | ⟨x, rest', rfl, -, hx⟩
        · cases h
        · exact absurd (List.cons.inj h).1 (hx rfl)
      | cons c a =>
        obtain ⟨rfl, -⟩ := List.cons.inj h
        exact absurd (letters '(' (by simp)) (by decide)
    · rfl
  simp only [minimum?, drop, spelled, bracketed, Option.or_none]

theorem afterBlanks?_space (front : ∀ c ∈ cs.head?, isBlank c = false) : afterBlanks? (' ' :: cs) = some cs := by
  simp only [afterBlanks?, isBlank_space, if_true, dropWhile_of_head front]

theorem passingLetter?_alpha {x : Char} {l : Letter} (h : passingLetter? x = some l) : x.isAlpha = true := by
  by_contra other
  have different : ∀ c ∈ ['a', 'A', 'b', 'B', 'c', 'C', 'd', 'D'], x ≠ c := by
    rintro c hc rfl
    exact other ((show ∀ c ∈ ['a', 'A', 'b', 'B', 'c', 'C', 'd', 'D'], c.isAlpha = true by simp) x hc)
  simp only [List.forall_mem_cons] at different
  simp [passingLetter?, different] at h

theorem passingLetter?_blank {x : Char} {l : Letter} (h : passingLetter? x = some l) : isBlank x = false :=
  isBlank_of_isAlpha (passingLetter?_alpha h)

/-- The words of a minimum, in any case. -/
theorem minimum?_spelled {m g o : List Char} {x : Char} {l : Letter} (hm : m.map foldLetter = "minimum".toList)
    (hg : g.map foldLetter = "grade".toList) (ho : o.map foldLetter = "of".toList) (hx : passingLetter? x = some l) :
    minimum? (spaced [m, g, o, [x]]) = some l := by
  have front : ∀ c ∈ [x].head?, isBlank c = false := by simpa using passingLetter?_blank hx
  have start : (spaced [m, g, o, [x]]).dropWhile isBlank = m ++ (' ' :: (g ++ (' ' :: (o ++ (' ' :: [x]))))) := by
    have : spaced [m, g, o, [x]] = ' ' :: (m ++ (' ' :: (g ++ (' ' :: (o ++ (' ' :: [x])))))) := by simp [spaced]
    rw [this, dropWhile_space (front_of_fold hm (by decide))]
  simp only [minimum?, start, spelledMinimum?, afterWord?_append hm, afterWord?_append hg, afterWord?_append ho,
    afterBlanks?_space (front_of_fold hg (by decide)), afterBlanks?_space (front_of_fold ho (by decide)),
    afterBlanks?_space front, Option.bind_eq_bind, Option.bind_some]
  simp [hasContent, hx]

/-- The words of a minimum in brackets, in any case. -/
theorem minimum?_bracketed {m : List Char} {x : Char} {l : Letter} (hm : m.map foldLetter = "min".toList)
    (hx : passingLetter? x = some l) : minimum? (spaced ['(' :: m, [x, ')']]) = some l := by
  have start : (spaced ['(' :: m, [x, ')']]).dropWhile isBlank = '(' :: (m ++ (' ' :: [x, ')'])) := by
    have : spaced ['(' :: m, [x, ')']] = ' ' :: '(' :: (m ++ (' ' :: [x, ')'])) := by simp [spaced]
    rw [this, dropWhile_space (by simp; decide)]
  have spelled : spelledMinimum? ('(' :: (m ++ (' ' :: [x, ')']))) = none := by
    have no_word : afterWord? "minimum".toList ('(' :: (m ++ (' ' :: [x, ')']))) = none :=
      afterWord?_none (a := []) (by simp) (.inr ⟨'(', _, rfl, by decide⟩)
    simp only [spelledMinimum?, no_word, Option.bind_eq_bind, Option.bind_none]
  have no_rest : afterWord? "imum".toList (' ' :: [x, ')']) = none :=
    afterWord?_none (a := []) (by simp) (.inr ⟨' ', _, rfl, by decide⟩)
  have no_grade : afterWord? "grade".toList [x, ')'] = none :=
    afterWord?_none (a := [x, ')']) (b := []) (by simp) (.inl rfl)
  have letter : (' ' :: [x, ')']).dropWhile isBlank = [x, ')'] :=
    dropWhile_space (by simpa using passingLetter?_blank hx)
  have close : [')'].dropWhile isBlank = [')'] := by decide
  simp only [minimum?, start, spelled, bracketedMinimum?, dropWhile_of_head (front_of_fold hm (by decide)),
    afterWord?_append hm, no_rest, no_grade, letter, close, Option.bind_eq_bind, Option.bind_some,
    Option.map_none, Option.getD_none, Option.none_or]
  simp [hasContent, hx]

/-! ## Courses -/

/-- A text without brackets has no remarks. -/
theorem dropRemarks_of_not_mem (h : '(' ∉ cs) : dropRemarks cs = cs := by
  have none_here {cs : List Char} (h : '(' ∉ cs) : afterRemark? cs = none := by
    unfold afterRemark?
    split
    · next inside hd => exact absurd ((List.dropWhile_sublist isBlank).subset (hd ▸ by simp)) h
    · rfl
  induction cs with
  | nil =>
    rw [dropRemarks]
    split
    · next h' => rw [none_here h] at h'; cases h'
    · rfl
  | cons c cs ih =>
    rw [dropRemarks]
    split
    · next h' => rw [none_here h] at h'; cases h'
    · simp only [ih fun hc => h (List.mem_cons_of_mem c hc)]

/-- Characters are taken for the course as long as no minimum stands behind them. -/
theorem splitMinimumFrom_skip {before : List Char} (hc : c ≠ '\n') (h : minimum? cs = none) :
    splitMinimumFrom before (c :: cs) = splitMinimumFrom (c :: before) cs := by
  have line : (c == '\n') = false := by simp [hc]
  simp only [splitMinimumFrom, line, Bool.false_eq_true, if_false, h]

/-- Too few letters for the word are taken for the course. -/
theorem splitMinimumFrom_letters {before : List Char} (letters : ∀ c ∈ a, c.isAlpha = true) (short : a.length < 7)
    (edge : ∃ x rest, b = x :: rest ∧ (foldLetter x).isAlpha = false) (h : minimum? b = none) :
    splitMinimumFrom before (a ++ b) = splitMinimumFrom (a.reverse ++ before) b := by
  induction a generalizing before with
  | nil => rfl
  | cons c a ih =>
    obtain ⟨hc, ha⟩ := List.forall_mem_cons.1 letters
    have line : c ≠ '\n' := by rintro rfl; exact absurd hc (by decide)
    have here : minimum? (a ++ b) = none := by
      cases a with
      | nil => exact h
      | cons d a =>
        have front : ∀ c ∈ (d :: a ++ b).head?, isBlank c = false := by
          simpa using isBlank_of_isAlpha (ha d (by simp))
        refine minimum?_none (dropWhile_of_head front) ha (by simp at short ⊢; omega) (.inr ?_)
        obtain ⟨x, rest, rfl, hx⟩ := edge
        exact ⟨x, rest, rfl, hx, by simp⟩
    rw [List.cons_append, splitMinimumFrom_skip line here, ih ha (by simp at short ⊢; omega)]
    simp

/-- No minimum begins at a digit. -/
theorem minimum?_digit (hc : isDigit c = true) : minimum? (c :: cs) = none := by
  refine minimum?_none (a := []) (b := c :: cs) (dropWhile_of_head (by simpa using isBlank_of_isDigit hc))
    (by simp) (by simp) (.inr ⟨c, cs, rfl, Course.isAlpha_foldLetter_of_isDigit hc, fun _ => ?_⟩)
  rintro rfl
  exact absurd hc (by decide)

/-- Digits are taken for the course. -/
theorem splitMinimumFrom_digits {before : List Char} (digits : ∀ c ∈ a, isDigit c = true) (h : minimum? b = none) :
    splitMinimumFrom before (a ++ b) = splitMinimumFrom (a.reverse ++ before) b := by
  induction a generalizing before with
  | nil => rfl
  | cons c a ih =>
    obtain ⟨hc, ha⟩ := List.forall_mem_cons.1 digits
    have line : c ≠ '\n' := by rintro rfl; exact absurd hc (by decide)
    have here : minimum? (a ++ b) = none := by
      cases a with
      | nil => exact h
      | cons d a => exact minimum?_digit (ha d (by simp))
    rw [List.cons_append, splitMinimumFrom_skip line here, ih ha]
    simp

/-- The words of a minimum grade, in any case, or none. -/
inductive Ending : List (List Char) → Option Letter → Prop where
  | plain : Ending [] none
  | spelled {m g o : List Char} {x : Char} {l : Letter} (hm : m.map foldLetter = "minimum".toList)
    (hg : g.map foldLetter = "grade".toList) (ho : o.map foldLetter = "of".toList) (hx : passingLetter? x = some l) :
    Ending [m, g, o, [x]] (some l)
  | bracketed {m : List Char} {x : Char} {l : Letter} (hm : m.map foldLetter = "min".toList)
    (hx : passingLetter? x = some l) : Ending ['(' :: m, [x, ')']] (some l)

variable {department number : List Char} {ws : List (List Char)} {least : Option Letter}

theorem Ending.minimum (h : Ending ws least) : minimum? (spaced ws) = least := by
  cases h with
  | plain => rfl
  | spelled hm hg ho hx => exact minimum?_spelled hm hg ho hx
  | bracketed hm hx => exact minimum?_bracketed hm hx

/-- The course is what stands in front of the ending. -/
theorem splitMinimumFrom_named (h : Course.Named department number) (e : Ending ws least) :
    splitMinimumFrom [] (department ++ ' ' :: (number ++ spaced ws)) = least.map (department ++ ' ' :: number, ·) := by
  obtain ⟨digits, last, rfl, shown, hd, hl⟩ := Course.isNumber_split h.number
  obtain ⟨d, digits', rfl⟩ := List.exists_cons_of_ne_nil shown
  have at_digit : minimum? (d :: digits' ++ [last] ++ spaced ws) = none := minimum?_digit (hd d (by simp))
  have at_space : minimum? (' ' :: (d :: digits' ++ [last] ++ spaced ws)) = none := by
    rw [← at_digit, minimum?, minimum?, List.dropWhile_cons, if_pos isBlank_space]
  have at_last : minimum? ([last] ++ spaced ws) = none := by
    rcases hl with hl | hl
    · exact minimum?_digit hl
    · refine minimum?_none (a := [last]) (dropWhile_of_head (by simpa using isBlank_of_isAlpha hl))
        (by simpa using hl) (by simp) ?_
      cases ws with
      | nil => exact .inl rfl
      | cons w ws => exact .inr ⟨' ', _, rfl, by decide, by simp⟩
  have short : department.length < 7 := by have := h.size; omega
  have line : last ≠ '\n' := by rintro rfl; exact absurd hl (by decide)
  rw [splitMinimumFrom_letters h.letters short ⟨' ', _, rfl, by decide⟩ at_space,
    splitMinimumFrom_skip (by decide) at_digit, List.append_assoc, splitMinimumFrom_digits hd at_last]
  have line : (last == '\n') = false := by simp [line]
  simp only [List.singleton_append, splitMinimumFrom, line, Bool.false_eq_true, if_false, e.minimum]
  cases e with
  | plain => rfl
  | spelled | bracketed => simp

/-- A course with its ending ends with a letter, a digit or a bracket. -/
theorem last_named (h : Course.Named department number) (e : Ending ws least) :
    ∃ c ∈ (department ++ ' ' :: (number ++ spaced ws)).getLast?, isBlank c = false ∧ c ≠ '.' := by
  obtain ⟨digits, last, rfl, -, -, hl⟩ := Course.isNumber_split h.number
  cases e with
  | plain =>
    refine ⟨last, by simp [spaced, List.getLast?_cons], ?_, ?_⟩
    · rcases hl with hl | hl
      · exact isBlank_of_isDigit hl
      · exact isBlank_of_isAlpha hl
    · rintro rfl
      exact absurd hl (by decide)
  | @spelled m g o x l hm hg ho hx =>
    refine ⟨x, by simp [spaced, List.getLast?_cons], passingLetter?_blank hx, ?_⟩
    rintro rfl
    cases hx
  | @bracketed m x l hm hx => exact ⟨')', by simp [spaced, List.getLast?_cons], by decide, by decide⟩

/-- A course is read in upper case, behind any blanks, with its minimum. -/
theorem readCourse_named (blank : ∀ c ∈ lead, isBlank c = true) (h : Course.Named department number)
    (e : Ending ws least) :
    readCourse (lead ++ (department ++ ' ' :: (number ++ spaced ws))) =
      .ok (course (String.ofList (department.map Char.toUpper ++ ' ' :: number.map Char.toUpper)) least) := by
  have token : trimToken (lead ++ (department ++ ' ' :: (number ++ spaced ws))) =
      department ++ ' ' :: (number ++ spaced ws) := by
    obtain ⟨c, hc, last, stop⟩ := last_named h e
    have back {p : Char → Bool} (hp : p c = false) :
        ∀ d ∈ (department ++ ' ' :: (number ++ spaced ws)).getLast?, p d = false := by
      intro d hd
      obtain rfl := Option.mem_unique hc hd
      exact hp
    rw [trimToken, trim, List.dropWhile_append_of_pos blank, dropWhile_of_head (h.front _),
      dropEndWhile_of_last (back last), dropEndWhile_of_last (back (by simp [stop]))]
  have bare : trim (dropRemarks (department ++ ' ' :: number)) = department ++ ' ' :: number := by
    obtain ⟨c, hc, last, -⟩ := last_named h .plain
    rw [spaced, List.flatMap_nil, List.append_nil] at hc
    have back : ∀ d ∈ (department ++ ' ' :: number).getLast?, isBlank d = false := by
      intro d hd
      obtain rfl := Option.mem_unique hc hd
      exact last
    rw [dropRemarks_of_not_mem h.no_bracket, trim_of_trimmed ⟨h.front _, back⟩]
  simp only [readCourse, token, splitMinimumFrom_named h e]
  cases e with
  | plain => simp only [Option.map_none, spaced, List.flatMap_nil, List.append_nil, bare, h.codeOfChars?]
  | spelled | bracketed => simp only [Option.map_some, bare, h.codeOfChars?]

/-! ## Words of a course -/

theorem word_department (h : Course.Named department number) (other : department.map foldLetter ≠ ['o', 'r']) :
    Word department where
  shown := by
    rintro rfl
    exact absurd h.size.1 (by simp)
  plain c hc := ⟨isBlank_of_isAlpha (h.letters c hc), by rintro rfl; exact absurd (h.letters _ hc) (by decide)⟩
  other := other

theorem word_number (h : Course.Named department number) : Word number where
  shown := (Course.isNumber_chars h.number).1
  plain c hc :=
    ⟨h.number_chars c hc, by rintro rfl; exact absurd ((Course.isNumber_chars h.number).2 _ hc) (by decide)⟩
  other spelled := by
    obtain ⟨d, rest, rfl, digit⟩ := h.number_digit
    have letterless := Course.isAlpha_foldLetter_of_isDigit digit
    rw [(List.cons.inj spelled).1] at letterless
    exact absurd letterless (by decide)

/-- What is spelled like a word of letters other than the separator is a word. -/
theorem word_of_fold {word : List Char} (h : w.map foldLetter = word) (shown : word ≠ [])
    (letters : ∀ c ∈ word, c.isAlpha = true) (other : word ≠ ['o', 'r']) : Word w where
  shown := by
    rintro rfl
    exact shown h.symm
  plain c hc := by
    have alpha : (foldLetter c).isAlpha = true := letters _ (h ▸ List.mem_map_of_mem hc)
    refine ⟨isBlank_of_isAlpha_foldLetter alpha, ?_⟩
    rintro rfl
    exact absurd alpha (by decide)
  other := h ▸ other

/-- A word behind or in front of a bracket is a word. -/
theorem Ending.words (h : Ending ws least) : ∀ w ∈ ws, Word w := by
  have letter {x : Char} {l : Letter} (hx : passingLetter? x = some l) : isBlank x = false ∧ x ≠ ',' :=
    ⟨passingLetter?_blank hx, by rintro rfl; cases hx⟩
  cases h with
  | plain => simp
  | @spelled m g o x l hm hg ho hx =>
    have last : Word [x] := ⟨by simp, by simpa using letter hx, by simp⟩
    simpa using ⟨word_of_fold hm (by simp) (by simp) (by simp), word_of_fold hg (by simp) (by simp) (by simp),
      word_of_fold ho (by simp) (by simp) (by simp), last⟩
  | @bracketed m x l hm hx =>
    have first : Word ('(' :: m) := by
      have inner := word_of_fold hm (by simp) (by simp) (by simp)
      refine ⟨by simp, ?_, fun spelled => absurd (List.cons.inj spelled).1 (by decide)⟩
      exact List.forall_mem_cons.2 ⟨by decide, inner.plain⟩
    have last : Word [x, ')'] := by
      refine ⟨by simp, List.forall_mem_cons.2 ⟨letter hx, by simp; decide⟩, fun spelled => ?_⟩
      exact absurd (List.cons.inj (List.cons.inj spelled).2).1 (by decide)
    simpa using ⟨first, last⟩

/-! ## Choices -/

/-- No choice stands where no count is followed by the word for courses. -/
theorem choice?_none {start : List Char} (hs : ((afterWord? "any".toList cs).bind afterBlanks?).getD cs = start)
    (h : ∀ count rest x, splitCount? start = some (count, rest) → afterBlanks? rest = some x →
      afterWord? "course".toList x = none) :
    choice? cs = none := by
  unfold choice?
  simp only [hs, Option.bind_eq_bind]
  cases hc : splitCount? start with
  | none => rfl
  | some split =>
    obtain ⟨count, rest⟩ := split
    cases hx : afterBlanks? rest with
    | none => simp only [Option.bind_some, hx, Option.bind_none]
    | some x => simp only [Option.bind_some, hx, h count rest x hc hx, Option.bind_none]

theorem afterBlanks?_eq_some {x : List Char} (h : afterBlanks? cs = some x) :
    (∀ c ∈ cs.head?, isBlank c = true) ∧ x = cs.dropWhile isBlank := by
  cases cs with
  | nil => cases h
  | cons c cs =>
    simp only [afterBlanks?] at h
    split at h
    · next hc => exact ⟨by simpa using hc, by rw [List.dropWhile_cons, if_pos hc, Option.some.inj h]⟩
    · cases h

theorem letterless_of_blank (h : isBlank c = true) : (foldLetter c).isAlpha = false := by
  rw [← Bool.not_eq_true]
  exact fun alpha => Bool.false_ne_true ((isBlank_of_isAlpha_foldLetter alpha).symm.trans h)

theorem isAlpha_foldLetter (h : c.isAlpha = true) : (foldLetter c).isAlpha = true := by
  have := isAlpha_iff.1 h
  simpa [foldLetter_ascii (show c.toNat < 0x80 by omega)] using h

/-- What counts as a letter at the beginning of a text is one text only. -/
theorem split_letters (ha : ∀ c ∈ a, (foldLetter c).isAlpha = true)
    (hw : ∀ c ∈ w, (foldLetter c).isAlpha = true)
    (stop : ∀ c ∈ b.head?, (foldLetter c).isAlpha = false)
    (edge : ∀ c ∈ rest.head?, (foldLetter c).isAlpha = false) (same : a ++ b = w ++ rest) : a = w ∧ b = rest := by
  have behind := congrArg (List.dropWhile fun c => (foldLetter c).isAlpha) same
  rw [List.dropWhile_append_of_pos ha, List.dropWhile_append_of_pos hw, dropWhile_of_head stop,
    dropWhile_of_head edge] at behind
  exact ⟨List.append_cancel_right (behind ▸ same), behind⟩

/-- Letters in front of something else begin with a word and blanks only if they are the word. -/
theorem behind_letters (letters : ∀ c ∈ a, c.isAlpha = true)
    (stop : ∀ c ∈ b.head?, (foldLetter c).isAlpha = false) {word x : List Char}
    (alpha : ∀ c ∈ word, c.isAlpha = true) (found : afterWord? word (a ++ b) = some rest)
    (blanks : afterBlanks? rest = some x) : rest = b := by
  obtain ⟨w, hw, spelled⟩ := afterWord?_eq_some.1 found
  have edge : ∀ c ∈ rest.head?, (foldLetter c).isAlpha = false := fun c hc =>
    letterless_of_blank ((afterBlanks?_eq_some blanks).1 c hc)
  exact (split_letters (fun c hc => isAlpha_foldLetter (letters c hc))
    (fun c hc => alpha _ (spelled ▸ List.mem_map_of_mem hc)) stop edge hw).2.symm

/-- A count in front of a number and its tail is all digits. -/
theorem splitCount?_number (h : Course.Named department number) {tail count x : List Char}
    (edge : ∀ c ∈ tail.head?, isDigit c = false)
    (split : splitCount? (number ++ tail) = some (count, rest)) (blanks : afterBlanks? rest = some x) :
    rest = tail := by
  obtain ⟨digits, last, rfl, shown, hd, hl⟩ := Course.isNumber_split h.number
  obtain ⟨d, digits, rfl⟩ := List.exists_cons_of_ne_nil shown
  have counted : ((d :: digits ++ [last] ++ tail).takeWhile isDigit).isEmpty = false := by simp [hd d (by simp)]
  simp only [splitCount?, counted, Bool.not_false, if_true, Option.some.injEq, Prod.mk.injEq] at split
  obtain ⟨-, rfl⟩ := split
  rw [List.append_assoc, List.dropWhile_append_of_pos hd] at blanks ⊢
  rcases hl with hl | hl
  · rw [List.dropWhile_append_of_pos (by simpa using hl), dropWhile_of_head edge]
  · have stop : ([last] ++ tail).dropWhile isDigit = [last] ++ tail :=
      dropWhile_of_head (by simpa using Course.isDigit_of_isAlpha hl)
    rw [stop] at blanks
    have blank := (afterBlanks?_eq_some blanks).1 last rfl
    rw [isBlank_of_isAlpha hl] at blank
    cases blank

/-- A count in front of letters is one of the words. -/
theorem splitCount?_letters (letters : ∀ c ∈ a, c.isAlpha = true) (shown : a ≠ []) {count : List Char}
    (split : splitCount? (a ++ b) = some (count, rest)) :
    ∃ word ∈ countWords, afterWord? word.1.toList (a ++ b) = some rest := by
  obtain ⟨c, a, rfl⟩ := List.exists_cons_of_ne_nil shown
  have uncounted : ((c :: a ++ b).takeWhile isDigit).isEmpty = true := by
    simp [Course.isDigit_of_isAlpha (letters c (by simp))]
  simp only [splitCount?, uncounted, Bool.not_true, Bool.false_eq_true, if_false] at split
  obtain ⟨word, hw, found⟩ := List.exists_of_findSome?_eq_some split
  obtain ⟨r, hr, made⟩ := Option.map_eq_some_iff.1 found
  obtain ⟨-, rfl⟩ := Prod.mk.inj made
  exact ⟨word, hw, hr⟩

/-- The text behind a course is no digit and does not go on with the word for courses. -/
structure Follows (tail : List Char) : Prop where
  edge : ∀ c ∈ tail.head?, isDigit c = false
  other : ∀ c ∈ (tail.dropWhile isBlank).head?, foldLetter c ≠ 'c'

/-- What counts neither as a digit nor as a letter begins no count. -/
theorem splitCount?_none (digit : isDigit c = false) (other : (foldLetter c).isAlpha = false) :
    splitCount? (c :: cs) = none := by
  have words : ∀ word ∈ countWords, ∃ l ls, word.1.toList = l :: ls ∧ l.isAlpha = true := by simp [countWords]
  simp only [splitCount?, List.takeWhile_cons, digit, Bool.false_eq_true, if_false, List.isEmpty_nil, Bool.not_true]
  refine List.findSome?_eq_none_iff.2 fun word hw => ?_
  obtain ⟨l, ls, hl, alpha⟩ := words word hw
  have different : (foldLetter c == l) = false := by
    rw [beq_eq_false_iff_ne]
    rintro rfl
    exact Bool.false_ne_true (other.symm.trans alpha)
  simp [hl, afterWord?, different]

theorem gap_letterless {gap : List Char} (separates : Course.Gap gap) :
    ∀ c ∈ gap, (foldLetter c).isAlpha = false := by
  cases separates with
  | blanks blank => exact fun c hc => letterless_of_blank (blank c hc)
  | @mark gap gap' m blank mark blank' =>
    have letterless : (foldLetter m).isAlpha = false := by rcases mark with rfl | rfl <;> decide
    simp only [List.forall_mem_append, List.forall_mem_cons]
    exact ⟨fun c hc => letterless_of_blank (blank c hc), letterless, fun c hc => letterless_of_blank (blank' c hc)⟩

/-- No letter stands right behind a department. -/
theorem department_stop {gap : List Char} (h : Course.Named department number) (separates : Course.Gap gap)
    (tail : List Char) : ∀ c ∈ (gap ++ (number ++ tail)).head?, (foldLetter c).isAlpha = false := by
  cases gap with
  | nil =>
    obtain ⟨d, rest, rfl, digit⟩ := h.number_digit
    simpa using Course.isAlpha_foldLetter_of_isDigit digit
  | cons c gap => simpa using gap_letterless separates c (by simp)

/-- Behind a department and blanks stands the number or the mark in front of it. -/
theorem behind_department {gap : List Char} (h : Course.Named department number) (separates : Course.Gap gap)
    (tail : List Char) :
    (gap ++ (number ++ tail)).dropWhile isBlank = number ++ tail ∨
      ∃ c rest, (gap ++ (number ++ tail)).dropWhile isBlank = c :: rest ∧ (c = '-' ∨ c = '_') := by
  cases separates with
  | blanks blank =>
    obtain ⟨d, ds, rfl, digit⟩ := h.number_digit
    rw [List.dropWhile_append_of_pos blank]
    exact .inl (dropWhile_of_head (by simpa using isBlank_of_isDigit digit))
  | mark blank mark blank' =>
    rw [List.append_assoc, List.dropWhile_append_of_pos blank]
    refine .inr ⟨_, _, dropWhile_of_head ?_, mark⟩
    rcases mark with rfl | rfl <;> simp <;> decide

/-- A text that begins with a course is no choice. -/
theorem choice?_named (h : Course.Named department number) {gap tail : List Char} (separates : Course.Gap gap)
    (follows : Follows tail) : choice? (department ++ (gap ++ (number ++ tail))) = none := by
  have stop := department_stop h separates tail
  have no_course {x : List Char} (hx : ∀ c ∈ x.head?, foldLetter c ≠ 'c') :
      afterWord? "course".toList x = none := by
    cases x with
    | nil => rfl
    | cons c x =>
      have : (foldLetter c == 'c') = false := by simpa using hx
      simp [afterWord?, this]
  cases any : (afterWord? "any".toList (department ++ (gap ++ (number ++ tail)))).bind afterBlanks? with
  | some start =>
    obtain ⟨behind_any, found, blanks⟩ := Option.bind_eq_some_iff.1 any
    obtain rfl := behind_letters h.letters stop (by simp) found blanks
    obtain rfl := (afterBlanks?_eq_some blanks).2
    refine choice?_none (by rw [any, Option.getD_some]) fun count rest x split blanks => ?_
    rcases behind_department h separates tail with here | ⟨c, behind, here, mark⟩
    · rw [here] at split
      rw [splitCount?_number h follows.edge split blanks] at blanks
      exact no_course ((afterBlanks?_eq_some blanks).2 ▸ follows.other)
    · have none : splitCount? (c :: behind) = none := by
        rcases mark with rfl | rfl <;> exact splitCount?_none (by decide) (by decide)
      rw [here, none] at split
      cases split
  | none =>
    refine choice?_none (by rw [any, Option.getD_none]) fun count rest x split blanks => ?_
    obtain ⟨word, hw, found⟩ := splitCount?_letters h.letters (by rintro rfl; exact absurd h.size.1 (by simp)) split
    have alpha : ∀ w ∈ countWords, ∀ c ∈ w.1.toList, c.isAlpha = true := by simp [countWords]
    obtain rfl := behind_letters h.letters stop (alpha word hw) found blanks
    obtain rfl := (afterBlanks?_eq_some blanks).2
    refine no_course ?_
    rcases behind_department h separates tail with here | ⟨c, behind, here, mark⟩
    · rw [here]
      rintro c hc spelled
      have digit := department_stop h (.blanks blank_nil) tail c hc
      rw [spelled] at digit
      exact absurd digit (by decide)
    · rw [here]
      rcases mark with rfl | rfl <;> simp <;> decide

end DegreePlan.Requirement.Prose
