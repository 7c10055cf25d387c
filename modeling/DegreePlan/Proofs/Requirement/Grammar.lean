import DegreePlan.Proofs.Fallible
import DegreePlan.Proofs.Requirement.Prose

/-!
# The language of prerequisites

Clauses of mentioned courses, written with `or` and semicolons, in any case and with either way of putting a
minimum grade. Every such text is read as what it means: all of the clauses, any of the courses of a clause.
-/

namespace DegreePlan.Requirement.Prose

open DegreePlan.Text

/-- A way to put a minimum grade in words. -/
inductive Phrase where
  | spelled
  | bracketed

/-- A course as prose mentions it: two to five capital letters that are neither a separator nor an unsupported
    word, four digits, perhaps one more capital letter and perhaps a minimum grade that is not a failure. -/
structure Mention where
  department : List Char
  digits : List Char
  suffix : Option Char
  minimum : Option (Letter × Phrase)
  capitals : ∀ c ∈ department, c.isUpper = true
  size : 2 ≤ department.length ∧ department.length ≤ 5
  free : department ≠ "OR".toList ∧ department ≠ "COREQ".toList
  four : digits.length = 4
  digit : ∀ c ∈ digits, c.isDigit = true
  capital : ∀ c ∈ suffix, c.isUpper = true
  passing : ∀ g ∈ minimum, g.1 ≠ .f

namespace Mention

/-- The number within the department. -/
def number (m : Mention) : List Char := m.digits ++ m.suffix.toList

/-- The words for the minimum grade. -/
def ending (m : Mention) : List Char :=
  match m.minimum with
  | none => []
  | some (l, .spelled) => " Minimum Grade of ".toList ++ l.text.toList
  | some (l, .bracketed) => " (min ".toList ++ l.text.toList ++ [')']

/-- The mention in its usual case. -/
def text (m : Mention) : List Char := m.department ++ ' ' :: (m.number ++ m.ending)

/-- What the mention means. -/
def leaf (m : Mention) : Requirement := course (String.ofList (m.department ++ ' ' :: m.number)) (m.minimum.map (·.1))

end Mention

/-- A clause in its usual case. -/
def clauseText (clause : List Mention) : List Char := " or ".toList.intercalate (clause.map Mention.text)

/-- Several clauses in their usual case. -/
def clausesText (clauses : List (List Mention)) : List Char := "; ".toList.intercalate (clauses.map clauseText)

/-- Several requirements joined, one standing for itself. -/
def joined (connective : Connective) : List Requirement → Requirement
  | [r] => r
  | rs =>
    match connective with
    | .all => all rs
    | .any => any rs

/-- What a clause means: any of its courses. -/
def clauseMeaning (clause : List Mention) : Requirement := joined .any (clause.map Mention.leaf)

/-- What clauses mean: all of them. -/
def meaning (clauses : List (List Mention)) : Requirement := joined .all (clauses.map clauseMeaning)

theorem single_eq_joined {connective : Connective} {rs : List Requirement} (shown : rs ≠ []) :
    single connective rs = .ok (joined connective rs) := by
  rcases rs with _ | ⟨r, _ | ⟨r', rs⟩⟩
  · exact absurd rfl shown
  · rfl
  · cases connective <;> rfl

/-! ## Mentions in any case -/

variable {commas : Bool} {a b cs lead tail : List Char} {m : Mention} {clause : List Mention}

theorem words_of_alike {ws : List (List Char)} (h : Alike cs (spaced ws)) :
    ∃ ws', cs = spaced ws' ∧ List.Forall₂ Alike ws' ws := by
  induction ws generalizing cs with
  | nil => exact ⟨[], h.nil, .nil⟩
  | cons w ws ih =>
    obtain ⟨c, cs, rfl, hc, h⟩ := Alike.cut (show Alike cs (' ' :: (w ++ spaced ws)) from h)
    obtain ⟨w', rest, rfl, hw, h⟩ := h.split
    obtain ⟨ws', rfl, hws⟩ := ih h
    obtain rfl : c = ' ' := eq_of_toLower hc (by decide)
    exact ⟨w' :: ws', rfl, .cons hw hws⟩

theorem passingLetter?_of_alike {l : Letter} (passing : l ≠ .f) (h : Alike cs l.text.toList) :
    ∃ x, cs = [x] ∧ passingLetter? x = some l := by
  have letter {c d : Char} (hc : passingLetter? c = some l) (hd : passingLetter? c.toUpper = some l)
      (hl : l.text.toList = [d]) (small : d.toLower = c) : ∃ x, cs = [x] ∧ passingLetter? x = some l := by
    rw [hl] at h
    obtain ⟨x, rest, rfl, hx, hr⟩ := h.cut
    obtain rfl := hr.nil
    refine ⟨x, rfl, ?_⟩
    rcases eq_or_of_toLower (hx.trans small) with rfl | rfl
    · exact hc
    · exact hd
  cases l with
  | a => exact letter (c := 'a') rfl rfl rfl rfl
  | b => exact letter (c := 'b') rfl rfl rfl rfl
  | c => exact letter (c := 'c') rfl rfl rfl rfl
  | d => exact letter (c := 'd') rfl rfl rfl rfl
  | f => exact absurd rfl passing

/-- A text that spells a mention: a department, a number and the words of an ending. -/
inductive Spells (m : Mention) : List Char → Prop where
  | intro {department number : List Char} {ws : List (List Char)} (named : Course.Named department number)
    (other : department.map foldLetter ≠ ['o', 'r']) (ending : Ending ws (m.minimum.map (·.1)))
    (upper : department.map Char.toUpper ++ ' ' :: number.map Char.toUpper = m.department ++ ' ' :: m.number) :
    Spells m (department ++ ' ' :: (number ++ spaced ws))

theorem ending_of_alike (h : Alike cs m.ending) : ∃ ws, cs = spaced ws ∧ Ending ws (m.minimum.map (·.1)) := by
  cases hm : m.minimum with
  | none =>
    simp only [Mention.ending, hm] at h
    exact ⟨[], h.nil, .plain⟩
  | some g =>
    obtain ⟨l, phrase⟩ := g
    have passing : l ≠ .f := m.passing (l, phrase) hm
    cases phrase with
    | spelled =>
      have words : m.ending = spaced ["Minimum".toList, "Grade".toList, "of".toList, l.text.toList] := by
        simp [Mention.ending, hm, spaced]
      rw [words] at h
      obtain ⟨_, rfl, ha⟩ := words_of_alike h
      rcases ha with _ | ⟨minimum, _ | ⟨grade, _ | ⟨of, _ | ⟨letter, _ | _⟩⟩⟩⟩
      obtain ⟨x, rfl, hx⟩ := passingLetter?_of_alike passing letter
      exact ⟨_, rfl, .spelled (minimum.fold (by simp)) (grade.fold (by simp)) (of.fold (by simp)) hx⟩
    | bracketed =>
      have words : m.ending = spaced ["(min".toList, l.text.toList ++ [')']] := by simp [Mention.ending, hm, spaced]
      rw [words] at h
      obtain ⟨_, rfl, ha⟩ := words_of_alike h
      rcases ha with _ | ⟨opened, _ | ⟨closed, _ | _⟩⟩
      obtain ⟨c, min, rfl, hc, hmin⟩ := Alike.cut (show Alike _ ('(' :: "min".toList) from opened)
      obtain ⟨letter, last, rfl, hl, closed⟩ := closed.split
      obtain ⟨d, none, rfl, hd, hn⟩ := closed.cut
      obtain rfl := hn.nil
      obtain ⟨x, rfl, hx⟩ := passingLetter?_of_alike passing hl
      obtain rfl : c = '(' := eq_of_toLower hc (by decide)
      obtain rfl : d = ')' := eq_of_toLower hd (by decide)
      exact ⟨_, rfl, .bracketed (hmin.fold (by simp)) hx⟩

namespace Mention

variable (m : Mention)

theorem alpha_department : ∀ c ∈ m.department, c.isAlpha = true := fun c hc => by
  simp [Char.isAlpha, m.capitals c hc]

theorem alpha_suffix : ∀ c ∈ m.suffix.toList, c.isAlpha = true := fun c hc => by
  simp [Char.isAlpha, m.capital c (by simpa using hc)]

/-- Upper case leaves capital letters and digits alone. -/
theorem upper_department : m.department.map Char.toUpper = m.department := by
  refine (List.map_congr_left fun c hc => ?_).trans m.department.map_id
  exact Char.toUpper_eq_of_not_isLower (Char.not_isLower_of_isUpper (m.capitals c hc))

theorem upper_number : m.number.map Char.toUpper = m.number := by
  refine (List.map_congr_left fun c hc => ?_).trans m.number.map_id
  refine Char.toUpper_eq_of_not_isLower ?_
  rcases List.mem_append.1 hc with hc | hc
  · have digit := m.digit c hc
    simp only [Char.isDigit, Char.isLower, Bool.and_eq_true, decide_eq_true_eq, UInt32.le_iff_toNat_le,
      ge_iff_le] at digit ⊢
    have : '9'.val.toNat < 'a'.val.toNat := by decide
    omega
  · exact Char.not_isLower_of_isUpper (m.capital c (by simpa using hc))

/-- The department is not the separator in any case. -/
theorem lower_department_ne : m.department.map Char.toLower ≠ ['o', 'r'] := by
  intro h
  refine m.free.1 ?_
  rw [← m.upper_department]
  simpa [Function.comp_def] using congrArg (List.map Char.toUpper) h

end Mention

theorem spells_of_alike (h : Alike cs m.text) : Spells m cs := by
  obtain ⟨department, rest, rfl, hd, h⟩ := h.split
  obtain ⟨space, rest, rfl, hs, h⟩ := h.cut
  obtain ⟨number, ending, rfl, hn, he⟩ := h.split
  obtain ⟨digits, suffix, rfl, hdigits, hsuffix⟩ :=
    Alike.split (show Alike number (m.digits ++ m.suffix.toList) from hn)
  obtain ⟨ws, rfl, ending⟩ := ending_of_alike he
  obtain rfl : space = ' ' := eq_of_toLower hs (by decide)
  have letters := (hd.forall (P := (Char.isAlpha · = true)) (by simp)).2 m.alpha_department
  have number : Course.isNumber (digits ++ suffix) = true := by
    have four : digits.length = 4 := hdigits.length.trans m.four
    have digit := (hdigits.forall (P := (isDigit · = true)) (by simp [Course.isDigit_toLower])).2 fun c hc =>
      Course.isDigit_of_ascii (m.digit c hc)
    have one : suffix.length ≤ 1 := by rw [hsuffix.length]; cases m.suffix <;> simp
    have letter := (hsuffix.forall (P := (Char.isAlpha · = true)) (by simp)).2 m.alpha_suffix
    exact Course.isNumber_of four digit one letter
  refine .intro ⟨letters, by rw [hd.length]; exact m.size, number⟩ ?other ending ?upper
  case other =>
    rw [hd.fold fun c hc => by have := isAlpha_iff.1 (m.alpha_department c hc); omega]
    exact m.lower_department_ne
  case upper => rw [hd.upper, hn.upper, m.upper_department, m.upper_number]

theorem follows_nil : Follows [] := ⟨by simp, by simp⟩

/-- What follows a course after a space is no course word if its first letter is another one. -/
theorem follows_space {c : Char} (shown : isBlank c = false) (other : foldLetter c ≠ 'c') :
    Follows (' ' :: c :: b) where
  edge := by simp; decide
  other := by
    rw [dropWhile_space (by simpa using shown)]
    simpa using other

theorem Ending.follows {ws : List (List Char)} {least : Option Letter} (e : Ending ws least) (follows : Follows tail) :
    Follows (spaced ws ++ tail) := by
  cases e with
  | plain => simpa [spaced] using follows
  | spelled hm hg ho hx =>
    obtain ⟨c, m, rfl, hc, -⟩ := List.map_eq_cons_iff.1 hm
    exact follows_space (isBlank_of_isAlpha_foldLetter (by rw [hc]; decide)) (by rw [hc]; decide)
  | bracketed hm hx => exact follows_space (by decide) (by decide)

namespace Spells

/-- A mention is read over as one piece. -/
theorem alternatives (blank : ∀ c ∈ lead, isBlank c = true) (h : Spells m cs) (edge : Edge b) :
    alternatives commas (lead ++ (cs ++ b)) = attach (lead ++ cs) (alternatives commas b) := by
  cases h with
  | @intro department number ws named other ending upper =>
    have words : ∀ w ∈ number :: ws, Word w := List.forall_mem_cons.2 ⟨word_number named, ending.words⟩
    have split : department ++ ' ' :: (number ++ spaced ws) = department ++ spaced (number :: ws) := by simp [spaced]
    rw [split, List.append_assoc department, alternatives_word blank (word_department named other) (edge_spaced _ edge),
      alternatives_spaced words edge, attach_attach, List.append_assoc]

theorem readCourse (blank : ∀ c ∈ lead, isBlank c = true) (h : Spells m cs) :
    readCourse (lead ++ cs) = .ok m.leaf := by
  cases h with
  | intro named other ending upper => rw [readCourse_named blank named ending, upper, Mention.leaf]

theorem shown (h : Spells m cs) : cs ≠ [] := by
  cases h with
  | intro => simp

theorem trimmed (h : Spells m cs) : Trimmed cs := by
  cases h with
  | intro named other ending upper =>
    obtain ⟨c, hc, last, -⟩ := last_named named ending
    refine ⟨named.front _, fun d hd => ?_⟩
    obtain rfl := Option.mem_unique hc hd
    exact last

theorem choice? (h : Spells m cs) (follows : Follows tail) : choice? (cs ++ tail) = none := by
  cases h with
  | @intro department number ws named other ending upper =>
    have split : department ++ ' ' :: (number ++ spaced ws) ++ tail =
        department ++ ([' '] ++ (number ++ (spaced ws ++ tail))) := by simp
    rw [split, choice?_named named (.blanks blank_space) (ending.follows follows)]

end Spells

/-! ## Texts that are taken for prerequisites -/

/-- What holds of pieces and is kept by joining two of them holds of all of them joined. -/
theorem intercalate_induction {P : List Char → Prop} {sep : List Char}
    (join : ∀ a b, P a → P b → P (a ++ sep ++ b)) {pieces : List (List Char)} (shown : pieces ≠ [])
    (h : ∀ piece ∈ pieces, P piece) : P (sep.intercalate pieces) := by
  induction pieces with
  | nil => exact absurd rfl shown
  | cons piece pieces ih =>
    obtain ⟨here, later⟩ := List.forall_mem_cons.1 h
    cases pieces with
    | nil => simpa using here
    | cons next pieces =>
      rw [List.intercalate_cons_cons]
      exact join _ _ here (ih (by simp) later)

/-- No word of the text is an unsupported one. -/
def Quiet (cs : List Char) : Prop := ∀ word ∈ unsupportedWords, ¬ word.toList <:+: cs.map Char.toLower

/-- No unsupported word reaches across a space or a semicolon. -/
theorem Quiet.join {x : Char} (ha : Quiet a) (hx : x = ' ' ∨ x = ';') (hb : Quiet b) : Quiet (a ++ x :: b) := by
  intro word hw found
  have across : x.toLower ∉ word.toList := by
    have none_has : ∀ word ∈ unsupportedWords, ' ' ∉ word.toList ∧ ';' ∉ word.toList := by
      simp [unsupportedWords]
    rcases hx with rfl | rfl
    · exact (none_has word hw).1
    · exact (none_has word hw).2
  rw [List.map_append, List.map_cons] at found
  rcases infix_of_cut across found with found | found
  · exact ha word hw found
  · exact hb word hw found

/-- A short text is quiet if it is not the one short unsupported word. -/
theorem quiet_of_length (short : cs.length ≤ 5) (other : cs.map Char.toLower ≠ "coreq".toList) : Quiet cs := by
  intro word hw found
  have length := found.length_le
  rw [List.length_map] at length
  -- the one unsupported word that fits into a department
  have longer : ∀ word ∈ unsupportedWords, word = "coreq" ∨ 6 ≤ word.toList.length := by simp [unsupportedWords]
  rcases longer word hw with rfl | long
  · exact other (found.eq_of_length_le (by simpa using short)).symm
  · omega

theorem trimmed_toLower : Trimmed (cs.map Char.toLower) ↔ Trimmed cs := by
  have lower (o : Option Char) :
      (∀ c ∈ o.map Char.toLower, isBlank c = false) ↔ ∀ c ∈ o, isBlank c = false := by simp [isBlank_toLower]
  constructor <;> intro ⟨front, back⟩
  · exact ⟨(lower _).1 (by rwa [List.head?_map] at front), (lower _).1 (by rwa [List.getLast?_map] at back)⟩
  · exact ⟨by rw [List.head?_map]; exact (lower _).2 front, by rw [List.getLast?_map]; exact (lower _).2 back⟩

/-- A text that is read clause by clause: a trimmed text of ASCII characters with a digit and no unsupported word. -/
structure Plain (cs : List Char) : Prop where
  ascii : ∀ c ∈ cs, c.toNat < 0x80
  trimmed : Trimmed cs
  digit : ∃ c ∈ cs, isDigit c = true
  quiet : Quiet cs

namespace Plain

theorem shown (h : Plain cs) : cs ≠ [] := by
  rintro rfl
  obtain ⟨c, hc, -⟩ := h.digit
  cases hc

theorem join {sep : List Char} (ascii : ∀ c ∈ sep, c.toNat < 0x80)
    (quiet : Quiet a → Quiet b → Quiet (a ++ sep ++ b)) (ha : Plain a) (hb : Plain b) : Plain (a ++ sep ++ b) where
  ascii := by simpa [or_imp, forall_and] using ⟨ha.ascii, ascii, hb.ascii⟩
  trimmed := by
    refine ⟨fun c hc => ha.trimmed.front c ?_, fun c hc => hb.trimmed.back c ?_⟩
    · rwa [List.append_assoc, List.head?_append_of_ne_nil _ ha.shown] at hc
    · rwa [List.getLast?_append_of_ne_nil _ hb.shown] at hc
  digit := by
    obtain ⟨c, hc, digit⟩ := ha.digit
    exact ⟨c, by simp [hc], digit⟩
  quiet := quiet ha.quiet hb.quiet

theorem of_alike (h : Plain b) (same : Alike a b) : Plain a where
  ascii := (same.forall fun _ => toLower_toNat_lt).2 h.ascii
  trimmed := by rw [← trimmed_toLower, same, trimmed_toLower]; exact h.trimmed
  digit := by
    by_contra none
    have other := (same.forall (P := (isDigit · = false)) (by simp [Course.isDigit_toLower])).1 (by simpa using none)
    obtain ⟨c, hc, digit⟩ := h.digit
    simp [other c hc] at digit
  quiet := by rw [Quiet, same]; exact h.quiet

end Plain

namespace Mention

theorem number_ne_nil (m : Mention) : ∃ d rest, m.number = d :: rest ∧ d.isDigit = true := by
  obtain ⟨d, digits, hd⟩ := List.exists_cons_of_length_pos (show 0 < m.digits.length by rw [m.four]; decide)
  exact ⟨d, digits ++ m.suffix.toList, by rw [number, hd]; rfl, m.digit d (by simp [hd])⟩

theorem quiet_number (m : Mention) : Quiet m.number := by
  have short : m.number.length ≤ 5 := by
    rw [number, List.length_append, m.four]
    cases m.suffix <;> simp
  refine quiet_of_length short fun spelled => ?_
  -- a number begins with a digit, the word does not
  obtain ⟨d, rest, hd, digit⟩ := m.number_ne_nil
  rw [hd] at spelled
  rcases eq_or_of_toLower (List.cons.inj spelled).1 with rfl | rfl <;> exact absurd digit (by decide)

theorem quiet_ending (m : Mention) : m.ending = [] ∨ ∃ words, m.ending = ' ' :: words ∧ Quiet words := by
  cases hm : m.minimum with
  | none => exact .inl (by simp [ending, hm])
  | some g =>
    obtain ⟨l, phrase⟩ := g
    cases phrase with
    | spelled =>
      exact .inr ⟨"Minimum Grade of ".toList ++ l.text.toList, by simp [ending, hm],
        by unfold Quiet; cases l <;> decide⟩
    | bracketed =>
      exact .inr ⟨"(min ".toList ++ l.text.toList ++ [')'], by simp [ending, hm],
        by unfold Quiet; cases l <;> decide⟩

theorem quiet (m : Mention) : Quiet m.text := by
  have department : Quiet m.department := by
    refine quiet_of_length m.size.2 fun spelled => m.free.2 ?_
    rw [← m.upper_department]
    simpa [Function.comp_def] using congrArg (List.map Char.toUpper) spelled
  refine department.join (.inl rfl) ?_
  rcases m.quiet_ending with none | ⟨words, hw, quiet⟩
  · rw [none, List.append_nil]
    exact m.quiet_number
  · rw [hw]
    exact m.quiet_number.join (.inl rfl) quiet

theorem ascii_ending (m : Mention) : ∀ c ∈ m.ending, c.toNat < 0x80 ∧ c ≠ ';' := by
  cases hm : m.minimum with
  | none => simp [ending, hm]
  | some g =>
    obtain ⟨l, phrase⟩ := g
    cases l <;> cases phrase <;> simp [ending, hm, Letter.text]

theorem ascii (m : Mention) : ∀ c ∈ m.text, c.toNat < 0x80 ∧ c ≠ ';' := by
  have letter {c : Char} (hc : c.isAlpha = true) : c.toNat < 0x80 ∧ c ≠ ';' :=
    ⟨by have := isAlpha_iff.1 hc; omega, by rintro rfl; exact absurd hc (by decide)⟩
  have digit {c : Char} (hc : c.isDigit = true) : c.toNat < 0x80 ∧ c ≠ ';' := by
    exact ⟨by have := Course.ascii_digit_bounds hc; omega, by rintro rfl; exact absurd hc (by decide)⟩
  intro c hc
  simp only [text, number, List.mem_append, List.mem_cons] at hc
  rcases hc with hc | rfl | (hc | hc) | hc
  · exact letter (m.alpha_department c hc)
  · decide
  · exact digit (m.digit c hc)
  · exact letter (m.alpha_suffix c hc)
  · exact m.ascii_ending c hc

theorem plain (m : Mention) : Plain m.text where
  ascii c hc := (m.ascii c hc).1
  trimmed := (spells_of_alike rfl).trimmed
  digit := by
    obtain ⟨d, rest, hd, digit⟩ := m.number_ne_nil
    exact ⟨d, by simp [text, hd], Course.isDigit_of_ascii digit⟩
  quiet := m.quiet

end Mention

/-! ## Clauses in any case -/

theorem plain_clause (shown : clause ≠ []) : Plain (clauseText clause) := by
  refine intercalate_induction (fun a b => Plain.join (by simp) fun ha hb => ?_) (by simpa using shown)
    (by simpa using fun m _ => m.plain)
  have either : Quiet "or".toList := quiet_of_length (by simp) (by simp)
  simpa using ha.join (.inl rfl) (either.join (.inl rfl) hb)

theorem plain_clauses {clauses : List (List Mention)} (shown : clauses ≠ [])
    (each : ∀ clause ∈ clauses, clause ≠ []) : Plain (clausesText clauses) := by
  refine intercalate_induction (fun a b => Plain.join (by simp) fun ha hb => ?_) (by simpa using shown)
    (by simpa using fun clause hc => plain_clause (each clause hc))
  have empty : Quiet [] := quiet_of_length (by simp) (by simp)
  simpa using ha.join (.inr rfl) (empty.join (.inl rfl) hb)

theorem alternatives_nil : alternatives commas [] = [[]] := by
  rw [alternatives]
  rfl

/-- A text that is put together from several begins with the first of them. -/
theorem intercalate_cons (sep x : List Char) (xs : List (List Char)) :
    ∃ rest, sep.intercalate (x :: xs) = x ++ rest ∧ (rest = [] ∨ ∃ more, rest = sep ++ more) := by
  cases xs with
  | nil => exact ⟨[], by simp, .inl rfl⟩
  | cons y xs => exact ⟨sep ++ sep.intercalate (y :: xs), by simp [List.intercalate_cons_cons], .inr ⟨_, rfl⟩⟩

/-- A clause begins with its first mention. -/
theorem spells_clause (h : Alike cs (clauseText (m :: clause))) :
    ∃ mention rest, cs = mention ++ rest ∧ Spells m mention ∧
      (rest = [] ∨ ∃ sep more, rest = sep ++ more ∧ Alike sep " or ".toList) := by
  obtain ⟨rest, text, hr⟩ := intercalate_cons " or ".toList m.text (clause.map Mention.text)
  rw [clauseText, List.map_cons, text] at h
  obtain ⟨mention, rest', rfl, hm, h⟩ := h.split
  refine ⟨mention, rest', rfl, spells_of_alike hm, ?_⟩
  rcases hr with rfl | ⟨more, rfl⟩
  · exact .inl h.nil
  · obtain ⟨sep, more', rfl, hs, -⟩ := h.split
    exact .inr ⟨sep, more', rfl, hs⟩

theorem hasContent_of_mem {c : Char} (hc : c ∈ cs) (shown : isBlank c = false) : hasContent cs = true := by
  simp only [hasContent, Bool.not_eq_true', List.all_eq_false, Bool.not_eq_true]
  exact ⟨c, hc, shown⟩

theorem hasContent_of_trimmed (shown : cs ≠ []) (h : Trimmed cs) : hasContent (lead ++ cs) = true := by
  obtain ⟨c, cs, rfl⟩ := List.exists_cons_of_ne_nil shown
  exact hasContent_of_mem (by simp) (h.front c rfl)

/-- Pieces with content are read one after the other. -/
theorem mapM_filter_cons_iff {read : List Char → Except Fault Requirement} {piece : List Char}
    {pieces : List (List Char)} {rs : List Requirement} (shown : hasContent piece = true) :
    ((piece :: pieces).filter hasContent).mapM read = .ok rs ↔
      ∃ r rs', read piece = .ok r ∧ (pieces.filter hasContent).mapM read = .ok rs' ∧ rs = r :: rs' := by
  rw [List.filter_cons_of_pos shown]
  simp only [List.mapM_cons, bind_eq_ok, pure_eq_ok, exists_and_left]
  constructor
  · rintro ⟨r, here, rs', later, rfl⟩
    exact ⟨r, here, rs', later, rfl⟩
  · rintro ⟨r, here, rs', later, rfl⟩
    exact ⟨r, here, rs', later, rfl⟩

theorem mapM_filter_cons {read : List Char → Except Fault Requirement} {piece : List Char} {pieces : List (List Char)}
    {r : Requirement} {rs : List Requirement} (shown : hasContent piece = true) (here : read piece = .ok r)
    (later : (pieces.filter hasContent).mapM read = .ok rs) :
    ((piece :: pieces).filter hasContent).mapM read = .ok (r :: rs) :=
  (mapM_filter_cons_iff shown).2 ⟨r, rs, here, later, rfl⟩

/-- The alternatives of a clause are read in order. -/
theorem mapM_readCourse (shown : clause ≠ []) (blank : ∀ c ∈ lead, isBlank c = true)
    (h : Alike cs (clauseText clause)) :
    ((alternatives false (lead ++ cs)).filter hasContent).mapM readCourse = .ok (clause.map Mention.leaf) := by
  induction clause generalizing cs lead with
  | nil => exact absurd rfl shown
  | cons m clause ih =>
    cases clause with
    | nil =>
      have spells := spells_of_alike (m := m) (by simpa [clauseText] using h)
      have cut : alternatives false (lead ++ (cs ++ [])) = attach (lead ++ cs) (alternatives false []) :=
        spells.alternatives blank (by simp [Edge])
      rw [List.append_nil, alternatives_nil, attach, List.append_nil] at cut
      rw [cut]
      exact mapM_filter_cons (hasContent_of_trimmed spells.shown spells.trimmed) (spells.readCourse blank) rfl
    | cons m' clause =>
      rw [clauseText, List.map_cons, List.map_cons, List.intercalate_cons_cons, ← List.map_cons,
        ← clauseText, List.append_assoc] at h
      obtain ⟨mention, rest, rfl, hm, h⟩ := h.split
      obtain ⟨sep, rest, rfl, hs, h⟩ := h.split
      have spells := spells_of_alike hm
      -- the blank that the separator begins with ends the mention, and the next one begins with no blank
      have edge : Edge (sep ++ rest) := by
        obtain ⟨c, sep, rfl, hc, -⟩ := Alike.cut (show Alike sep (' ' :: "or ".toList) from hs)
        obtain rfl : c = ' ' := eq_of_toLower hc (by decide)
        simp [Edge]
        decide
      have front := ((plain_clause (by simp)).of_alike h).trimmed.front
      have cut : alternatives false (lead ++ (mention ++ (sep ++ rest))) =
        attach (lead ++ mention) (alternatives false (sep ++ rest)) :=
        spells.alternatives blank edge
      rw [alternatives_or (afterSpacedOr?_separator hs front), attach, List.append_nil] at cut
      have later : ((alternatives false ([] ++ rest)).filter hasContent).mapM readCourse =
        .ok ((m' :: clause).map Mention.leaf) :=
        ih (by simp) (by simp) h
      rw [List.nil_append] at later
      rw [cut]
      exact mapM_filter_cons (hasContent_of_trimmed spells.shown spells.trimmed) (spells.readCourse blank) later

theorem readClause_of_alike (shown : clause ≠ []) (blank : ∀ c ∈ lead, isBlank c = true)
    (h : Alike cs (clauseText clause)) : readClause (lead ++ cs) = .ok (clauseMeaning clause) := by
  have leaves : clause.map Mention.leaf ≠ [] := by simpa using shown
  obtain ⟨r, rs, hr⟩ := List.exists_cons_of_ne_nil leaves
  rw [clauseMeaning, ← single_eq_joined leaves]
  simp only [readClause, mapM_readCourse shown blank h, hr]
  rfl

theorem no_semicolon (shown : clause ≠ []) (h : Alike cs (clauseText clause)) : ∀ c ∈ cs, (c == ';') = false := by
  have fixed (c : Char) : c.toLower ≠ ';' ↔ c ≠ ';' :=
    not_congr ⟨fun hc => eq_of_toLower (hc.trans (by decide)) (by decide), fun hc => by rw [hc]; decide⟩
  have usual : ∀ c ∈ clauseText clause, c ≠ ';' := by
    refine intercalate_induction (P := fun cs => ∀ c ∈ cs, c ≠ ';') (fun a b ha hb => ?_) (by simpa using shown)
      (by simpa using fun m _ c hc => (m.ascii c hc).2)
    simpa [or_imp, forall_and] using ⟨ha, hb⟩
  simpa using (h.forall fixed).2 usual

/-- The clauses are read in order. -/
theorem mapM_readClause {clauses : List (List Mention)} (shown : clauses ≠ [])
    (each : ∀ clause ∈ clauses, clause ≠ []) (blank : ∀ c ∈ lead, isBlank c = true)
    (h : Alike cs (clausesText clauses)) :
    ((cutAt (· == ';') (lead ++ cs)).filter hasContent).mapM readClause = .ok (clauses.map clauseMeaning) := by
  have no_semicolon_lead {lead cs : List Char} {clause : List Mention}
    (blank : ∀ c ∈ lead, isBlank c = true) (shown : clause ≠ [])
      (h : Alike cs (clauseText clause)) : ∀ c ∈ lead ++ cs, (c == ';') = false := by
    intro c hc
    rcases List.mem_append.1 hc with hc | hc
    · simp only [beq_eq_false_iff_ne]
      rintro rfl
      exact absurd (blank _ hc) (by decide)
    · exact no_semicolon shown h c hc
  induction clauses generalizing cs lead with
  | nil => exact absurd rfl shown
  | cons clause clauses ih =>
    obtain ⟨here, later⟩ := List.forall_mem_cons.1 each
    cases clauses with
    | nil =>
      have h : Alike cs (clauseText clause) := by simpa [clausesText] using h
      have plain := (plain_clause here).of_alike h
      have cut := cutAt_of_none (no_semicolon_lead blank here h)
      rw [cut]
      exact mapM_filter_cons (hasContent_of_trimmed plain.shown plain.trimmed) (readClause_of_alike here blank h) rfl
    | cons next clauses =>
      rw [clausesText, List.map_cons, List.map_cons, List.intercalate_cons_cons, ← List.map_cons,
        ← clausesText, List.append_assoc] at h
      obtain ⟨first, behind, rfl, h₁, hb⟩ := h.split
      obtain ⟨sep, rest, rfl, hs, h₂⟩ := hb.split
      obtain rfl : sep = "; ".toList := hs.eq (by simp)
      have plain := (plain_clause here).of_alike h₁
      -- the other clauses are read behind the blank that follows the semicolon
      have rest_read : ((cutAt (· == ';') ([' '] ++ rest)).filter hasContent).mapM readClause =
        .ok ((next :: clauses).map clauseMeaning) :=
        ih (by simp) later (by simp; decide) h₂
      have cut := cutAt_append (p := (· == ';')) (b := ' ' :: rest) (no_semicolon_lead blank here h₁) (x := ';') rfl
      have text : lead ++ (first ++ ("; ".toList ++ rest)) = lead ++ first ++ ';' :: ' ' :: rest := by simp
      rw [text, cut]
      exact mapM_filter_cons (hasContent_of_trimmed plain.shown plain.trimmed)
        (readClause_of_alike here blank h₁) rest_read

/-- A text that begins with a mention is no choice. -/
theorem choice?_clauses {clauses : List (List Mention)} (shown : clauses ≠ [])
    (each : ∀ clause ∈ clauses, clause ≠ []) (h : Alike cs (clausesText clauses)) : choice? cs = none := by
  obtain ⟨clause, clauses, rfl⟩ := List.exists_cons_of_ne_nil shown
  obtain ⟨m, clause, rfl⟩ := List.exists_cons_of_ne_nil (each clause (by simp))
  obtain ⟨rest, text, hr⟩ := intercalate_cons "; ".toList (clauseText (m :: clause)) (clauses.map clauseText)
  rw [clausesText, List.map_cons, text] at h
  obtain ⟨first, behind, rfl, h₁, hb⟩ := h.split
  obtain ⟨mention, others, rfl, spells, ho⟩ := spells_clause h₁
  rw [List.append_assoc]
  refine spells.choice? ?_
  -- behind the first mention stands nothing, another clause or another mention
  rcases ho with rfl | ⟨sep, more, rfl, hs⟩
  · rcases hr with rfl | ⟨more, rfl⟩
    · rw [hb.nil]
      exact follows_nil
    · obtain ⟨sep, more', rfl, hs, -⟩ := hb.split
      obtain rfl := hs.eq (by simp)
      exact ⟨by simp; decide, by rw [dropWhile_of_head (by simp; decide)]; simp; decide⟩
  · obtain ⟨space, word, rfl, hspace, hw⟩ := Alike.cut (show Alike sep (' ' :: "or ".toList) from hs)
    obtain rfl : space = ' ' := eq_of_toLower hspace (by decide)
    obtain ⟨o, word, rfl, ho, -⟩ := hw.cut
    rcases eq_or_of_toLower ho with rfl | rfl <;> exact follows_space (by decide) (by decide)

theorem not_nothing (h : Plain cs) : nothing.contains (String.ofList (cs.map Char.toLower)) = false := by
  have no_digit : ∀ word ∈ nothing, ∀ c ∈ word.toList, isDigit c = false := by
    simp [nothing, isDigit, digitValue?]
  rw [← Bool.not_eq_true, List.contains_iff_mem]
  intro found
  obtain ⟨c, hc, digit⟩ := h.digit
  have := no_digit _ found c.toLower (by simpa using List.mem_map_of_mem hc)
  rw [Course.isDigit_toLower, digit] at this
  cases this

theorem supported (h : Plain cs) :
    (unsupportedWords.any fun word => hasInfix word.toList (cs.map Char.toLower)) = false := by
  simp only [List.any_eq_false, hasInfix_iff]
  exact h.quiet

/-- Every text of clauses, in whatever case, is read as what the clauses mean. -/
theorem ofProse_of_alike {clauses : List (List Mention)} {text : String} (shown : clauses ≠ [])
    (each : ∀ clause ∈ clauses, clause ≠ []) (h : Alike text.toList (clausesText clauses)) :
    ofProse text = .ok (some (meaning clauses)) := by
  have plain := (plain_clauses shown each).of_alike h
  have clauses_read : ((cutAt (· == ';') ([] ++ text.toList)).filter hasContent).mapM readClause =
    .ok (clauses.map clauseMeaning) :=
    mapM_readClause shown each (by simp) h
  obtain ⟨r, rs, hr⟩ := List.exists_cons_of_ne_nil (show clauses.map clauseMeaning ≠ [] by simpa using shown)
  rw [List.nil_append, hr] at clauses_read
  simp only [ofProse, trim_of_trimmed plain.trimmed, lower_ascii plain.ascii, not_nothing plain,
    String.toList_ofList, supported plain, choice?_clauses shown each h, clauses_read, meaning, hr,
    Bool.false_eq_true, if_false]
  change (single .all (r :: rs)).bind (fun whole => pure (some whole)) = _
  rw [single_eq_joined (by simp)]
  rfl

theorem ofProse_mixed_case : ofProse "cs 1301 Or Math 1501a (MIN c); pHYS 2211 minimum grade OF b" =
    .ok (some (.all [.any [.course "CS 1301" none, .course "MATH 1501A" (some .c)],
      .course "PHYS 2211" (some .b)])) := by
  let programming : Mention := {
    department := "CS".toList, digits := "1301".toList, suffix := none, minimum := none
    capitals := by simp, size := by simp, free := by simp, four := rfl
    digit := by simp, capital := by simp, passing := by simp }
  let calculus : Mention := {
    department := "MATH".toList, digits := "1501".toList, suffix := some 'A', minimum := some (.c, .bracketed)
    capitals := by simp, size := by simp, free := by simp, four := rfl
    digit := by simp, capital := by simp, passing := by simp }
  let mechanics : Mention := {
    department := "PHYS".toList, digits := "2211".toList, suffix := none, minimum := some (.b, .spelled)
    capitals := by simp, size := by simp, free := by simp, four := rfl
    digit := by simp, capital := by simp, passing := by simp }
  have spelled : Alike "cs 1301 Or Math 1501a (MIN c); pHYS 2211 minimum grade OF b".toList
      (clausesText [[programming, calculus], [mechanics]]) := by rfl
  exact ofProse_of_alike (by simp) (by simp) spelled

end DegreePlan.Requirement.Prose
