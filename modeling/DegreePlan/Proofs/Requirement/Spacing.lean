import DegreePlan.Proofs.Requirement.Annotation

/-!
# Spacing

Blanks around a clause do not count, except in front of a clause that begins with the department `OR`. A blank there
makes the department a separator, and what is left of the course is refused.
-/

namespace DegreePlan.Requirement.Prose

open DegreePlan.Text

variable {a b cs lead pad : List Char} {commas : Bool} {r : Requirement}

/-! ## Courses as alternatives -/

/-- A course as a list of alternatives names it, perhaps with a minimum grade. -/
structure Item where
  department : List Char
  number : List Char
  words : List (List Char)
  least : Option Letter
  named : Course.Named department number
  ending : Ending words least

namespace Item

/-- The item in words. -/
def text (e : Item) : List Char := e.department ++ ' ' :: (e.number ++ spaced e.words)

/-- The course code of the item. -/
def code (e : Item) : String := String.ofList (e.department.map Char.toUpper ++ ' ' :: e.number.map Char.toUpper)

/-- What the item means. -/
def leaf (e : Item) : Requirement := course e.code e.least

/-- The department is spelled like the separator. -/
def Ambiguous (e : Item) : Prop := e.department.map foldLetter = ['o', 'r']

/-- An item is a token. -/
def token (e : Item) : Token where
  name := e.department ++ ' ' :: e.number
  form := spaced e.words
  named := by simp [e.named.codeOfChars?]
  graded := by
    cases e with
    | mk department number words least named ending =>
      have minimum := ending.minimum
      cases ending with
      | plain => exact .inl rfl
      | spelled hm hg ho hx =>
        refine .inr ⟨by simp [minimum], ?_⟩
        simpa [spaced, List.getLast?_cons] using passingLetter?_blank hx
      | bracketed hm hx =>
        refine .inr ⟨by simp [minimum], ?_⟩
        simp [spaced, List.getLast?_cons]
        decide

theorem text_token (e : Item) : e.token.text = e.text := by simp [Token.text, token, text]

theorem parts (e : Item) : Parts e.text := e.text_token ▸ e.token.parts

/-- An item is read over, also behind blanks if its department is not taken for the separator. -/
theorem alternatives (e : Item) (blank : Blank lead) (fits : e.Ambiguous → lead = []) (edge : Edge b) :
    alternatives commas (lead ++ (e.text ++ b)) = attach (lead ++ e.text) (alternatives commas b) := by
  have text : e.text ++ b = e.department ++ ([' '] ++ (e.number ++ (spaced e.words ++ b))) := by simp [Item.text]
  have plain : ∀ c ∈ e.department, isBlank c = false ∧ c ≠ ',' := fun c hc =>
    ⟨isBlank_of_isAlpha (e.named.letters c hc), by rintro rfl; exact absurd (e.named.letters _ hc) (by decide)⟩
  have front : Prose.alternatives commas (lead ++ (e.department ++ ([' '] ++ (e.number ++ (spaced e.words ++ b))))) =
      attach (lead ++ e.department) (Prose.alternatives commas ([' '] ++ (e.number ++ (spaced e.words ++ b)))) := by
    by_cases ambiguous : e.Ambiguous
    · rw [fits ambiguous]
      exact alternatives_plain plain
    · exact alternatives_word blank (word_department e.named ambiguous) (by simp [Edge]; decide)
  rw [text, front, alternatives_word (by simp; decide) (word_number e.named) (edge_spaced e.words edge),
    alternatives_spaced e.ending.words edge, attach_attach, attach_attach]
  simp [Item.text]

theorem readCourse (e : Item) (blank : Blank lead) (blank' : Blank pad) :
    readCourse (lead ++ (e.text ++ pad)) = .ok e.leaf := by
  have named := readCourse_named blank_nil e.named e.ending
  have alone : Prose.readCourse e.text = .ok e.leaf := named
  have within := e.parts.readCourse blank stops_nil blank'
  exact within.trans alone

theorem shown (e : Item) (a b : List Char) : hasContent (a ++ (e.text ++ b)) = true :=
  e.text_token ▸ e.token.hasContent a b

end Item

/-- Items as alternatives. -/
def options (items : List Item) : List Char := " or ".toList.intercalate (items.map Item.text)

variable {e e' : Item} {items : List Item}

theorem options_cons : options (e :: e' :: items) = e.text ++ (" or ".toList ++ options (e' :: items)) := by
  simp [options, List.intercalate_cons_cons]

theorem options_one : options [e] = e.text := by simp [options]

/-- Alternatives begin with their first item. -/
theorem options_front (e : Item) (items : List Item) :
    ∃ rest, options (e :: items) = e.text ++ rest ∧ (rest = [] ∨ ∃ more, rest = " or ".toList ++ more) := by
  cases items with
  | nil => exact ⟨[], by rw [options_one, List.append_nil], .inl rfl⟩
  | cons e' items => exact ⟨_, options_cons, .inr ⟨_, rfl⟩⟩

theorem starts_options (e : Item) (items : List Item) (b : List Char) :
    ∃ c ∈ (options (e :: items) ++ b).head?, isBlank c = false := by
  obtain ⟨rest, split, -⟩ := options_front e items
  rw [split, List.append_assoc]
  exact head_append_of_some (e.text_token ▸ e.token.starts) _

/-- The alternatives are read in order. -/
theorem mapM_options (blank : Blank lead) (fits : e.Ambiguous → lead = []) (blank' : Blank pad) :
    ((alternatives commas (lead ++ (options (e :: items) ++ pad))).filter hasContent).mapM readCourse =
      .ok ((e :: items).map Item.leaf) := by
  induction items generalizing e lead with
  | nil =>
    rw [options_one, e.alternatives blank fits fun c hc => blank' c (List.mem_of_mem_head? hc),
      alternatives_blank blank']
    have read := e.readCourse blank blank'
    rw [← List.append_assoc] at read
    exact mapM_filter_cons (by rw [List.append_assoc]; exact e.shown _ _) read rfl
  | cons e' items ih =>
    have edge : Edge (" or ".toList ++ (options (e' :: items) ++ pad)) := by simp [Edge]; decide
    have stop := dropWhile_of_some (starts_options e' items pad)
    have later := ih blank_nil (fun (_ : e'.Ambiguous) => rfl)
    have read := e.readCourse blank blank_nil
    rw [options_cons, List.append_assoc, List.append_assoc, e.alternatives blank fits edge,
      alternatives_or (separator_or.taken _), stop]
    rw [List.append_nil] at read
    simp only [attach, List.append_nil]
    exact mapM_filter_cons (by simpa using e.shown lead []) read later

/-- What alternatives mean: any of their courses. -/
def anyOf (items : List Item) : Requirement := joined .any (items.map Item.leaf)

theorem readClause_options (blank : Blank lead) (fits : e.Ambiguous → lead = []) (blank' : Blank pad) :
    readClause (lead ++ (options (e :: items) ++ pad)) = .ok (anyOf (e :: items)) := by
  rw [anyOf, ← single_eq_joined (by simp)]
  simp only [readClause, mapM_options blank fits blank']
  rfl

/-- Behind a blank the department `OR` is taken for the separator, and no course begins with a number. -/
theorem readClause_ambiguous (blank : Blank lead) (shown : lead ≠ []) (ambiguous : e.Ambiguous) :
    readClause (lead ++ (options (e :: items) ++ pad)) ≠ .ok r := by
  obtain ⟨rest, split, -⟩ := options_front e items
  obtain ⟨d, digits, hn, digit⟩ := e.named.number_digit
  have plain : ∀ c ∈ e.number, isBlank c = false ∧ c ≠ ',' := (word_number e.named).plain
  have separator : Separator (lead ++ (e.department ++ [' '])) := .intro blank shown ambiguous blank_space (by simp)
  have text : lead ++ (options (e :: items) ++ pad) =
      (lead ++ (e.department ++ [' '])) ++ (e.number ++ (spaced e.words ++ (rest ++ pad))) := by
    simp [split, Item.text]
  have stop : (e.number ++ (spaced e.words ++ (rest ++ pad))).dropWhile isBlank =
    e.number ++ (spaced e.words ++ (rest ++ pad)) :=
    dropWhile_of_head (by simpa [hn] using isBlank_of_isDigit digit)
  obtain ⟨piece, pieces, behind⟩ :=
    List.exists_cons_of_ne_nil (alternatives_ne_nil false (spaced e.words ++ (rest ++ pad)))
  have cut : alternatives false (lead ++ (options (e :: items) ++ pad)) = [[]] ++ (e.number ++ piece) :: pieces := by
    rw [text, alternatives_or (separator.taken _), stop, alternatives_plain plain, behind]
    rfl
  have shown : hasContent (e.number ++ piece) = true := by simp [hasContent, hn, isBlank_of_isDigit digit]
  intro read
  obtain ⟨_, leaf, _, -, read, -⟩ := (readClause_eq_ok cut shown).1 read
  rw [hn] at read
  refine absurd (readCourse_front (isBlank_of_isDigit digit) ⟨?_, ?_⟩ read) fun alpha => ?_
  · rintro rfl; exact absurd digit (by decide)
  · rintro rfl; exact absurd digit (by decide)
  · exact Bool.false_ne_true ((Course.isAlpha_of_isDigit digit).symm.trans alpha)

theorem readClause_options_iff (blank : Blank lead) (blank' : Blank pad) :
    readClause (lead ++ (options (e :: items) ++ pad)) = .ok r ↔ (e.Ambiguous → lead = []) ∧
    r = anyOf (e :: items) := by
  constructor
  · intro read
    have fits : e.Ambiguous → lead = [] := fun ambiguous => by
      by_contra shown
      exact readClause_ambiguous blank shown ambiguous read
    rw [readClause_options blank fits blank'] at read
    exact ⟨fits, (Except.ok.inj read).symm⟩
  · rintro ⟨fits, rfl⟩
    exact readClause_options blank fits blank'

/-! ## Clauses with blanks around them -/

/-- A course code in its own form, of any department but the unsupported word. -/
structure Code where
  department : List Char
  number : List Char
  named : Course.Named department number
  upper : (department ++ number).map Char.toUpper = department ++ number
  supported : department ≠ "COREQ".toList

namespace Code

/-- The code as an item with no minimum grade. -/
def item (c : Code) : Item := ⟨c.department, c.number, [], none, c.named, .plain⟩

theorem upper_department (c : Code) : c.department.map Char.toUpper = c.department := by
  have upper := c.upper
  rw [List.map_append] at upper
  exact (List.append_inj upper (by simp)).1

theorem ambiguous_iff (c : Code) : c.item.Ambiguous ↔ c.department = "OR".toList := by
  constructor
  · intro spelled
    obtain ⟨x, w, hd, hx, spelled⟩ := List.map_eq_cons_iff.1 spelled
    obtain ⟨y, w', rfl, hy, none⟩ := List.map_eq_cons_iff.1 spelled
    obtain rfl := List.map_eq_nil_iff.1 none
    have hd : c.department = [x, y] := hd
    have letter {z l : Char} (hz : z ∈ c.department) (spelled : foldLetter z = l) : z = l ∨ z = l.toUpper := by
      have := isAlpha_iff.1 (c.named.letters z hz)
      rw [foldLetter_ascii (by omega)] at spelled
      exact eq_or_of_toLower spelled
    have upper := c.upper_department
    rw [hd] at upper ⊢
    rcases letter (by simp [hd]) hx with rfl | rfl <;> rcases letter (by simp [hd]) hy with rfl | rfl <;>
      first | rfl | exact absurd upper (by decide)
  · intro spelled
    have fold : c.department.map foldLetter = ['o', 'r'] := by rw [spelled]; decide
    exact fold

end Code

/-- Alternatives that are course codes. -/
structure Clause where
  first : Code
  others : List Code

namespace Clause

/-- The codes of a clause as items. -/
def alternatives (c : Clause) : List Item := c.first.item :: c.others.map Code.item

/-- The codes with the separator between them. -/
def text (c : Clause) : List Char := options c.alternatives

/-- What the clause means. -/
def meaning (c : Clause) : Requirement := anyOf c.alternatives

end Clause

/-- A clause behind a semicolon, with the blanks in front of the semicolon and behind it. -/
structure Link where
  before : List Char
  after : List Char
  clause : Clause
  blank : Blank before
  blank' : Blank after

/-- The text of a link. -/
def Link.text (l : Link) : List Char := l.before ++ ';' :: (l.after ++ l.clause.text)

/-- Clauses in a row, the first without blanks around it. -/
def chain (first : Clause) (links : List Link) : List Char := first.text ++ links.flatMap Link.text

theorem chain_cons (first : Clause) (l : Link) (links : List Link) :
    chain first (l :: links) = first.text ++ (l.before ++ ';' :: (l.after ++ chain l.clause links)) := by
  simp [chain, Link.text]

theorem Clause.front (c : Clause) :
    ∃ rest, c.text = c.first.item.text ++ rest ∧ (rest = [] ∨ ∃ more, rest = " or ".toList ++ more) :=
  options_front _ _

/-- What holds of every code and is kept by the separator holds of a clause. -/
theorem Clause.induction {P : List Char → Prop} (c : Clause)
    (join : ∀ a b, P a → P b → P (a ++ " or ".toList ++ b)) (each : ∀ c : Code, P c.item.text) : P c.text :=
  intercalate_induction join (by simp [alternatives]) (by simpa [alternatives] using ⟨each _, fun c _ => each c⟩)

theorem Clause.no_semicolon (c : Clause) : ';' ∉ c.text :=
  c.induction (P := (';' ∉ ·)) (fun a b ha hb => by simpa using ⟨ha, hb⟩) fun c => c.item.parts.no_semicolon

theorem Clause.starts (c : Clause) (b : List Char) : ∃ x ∈ (c.text ++ b).head?, isBlank x = false :=
  starts_options _ _ b

theorem Clause.ends (c : Clause) : ∃ x ∈ c.text.getLast?, isBlank x = false := by
  refine c.induction (P := fun cs => ∃ x ∈ cs.getLast?, isBlank x = false) (fun a b _ hb => ?_) fun c => ?_
  · exact last_append_of_some hb _
  · obtain ⟨x, hx, plain, -⟩ := c.item.parts.back
    exact ⟨x, hx, plain⟩

theorem Clause.readClause_iff (c : Clause) (blank : Blank lead) (blank' : Blank pad) :
    readClause (lead ++ (c.text ++ pad)) = .ok r ↔ (c.first.department = "OR".toList → lead = []) ∧
    r = c.meaning := by
  rw [← c.first.ambiguous_iff]
  exact readClause_options_iff blank blank'

/-- The clauses are read in order if none of them is torn by a blank. -/
theorem mapM_chain {links : List Link} {first : Clause} {rs : List Requirement} (blank : Blank lead) :
    ((cutAt (· == ';') (lead ++ chain first links)).filter hasContent).mapM readClause = .ok rs ↔
      ((first.first.department = "OR".toList → lead = []) ∧
        ∀ l ∈ links, l.clause.first.department = "OR".toList → l.after = []) ∧
        rs = first.meaning :: links.map (·.clause.meaning) := by
  have shown (c : Clause) (a b : List Char) : hasContent (a ++ (c.text ++ b)) = true := by
    obtain ⟨x, hx, plain⟩ := c.starts []
    rw [List.append_nil] at hx
    exact hasContent_of_mem (by simp [List.mem_of_mem_head? hx]) plain
  induction links generalizing lead first rs with
  | nil =>
    have one : ';' ∉ lead ++ first.text := by simpa using ⟨no_semicolon_of_blank blank, first.no_semicolon⟩
    have cut : cutAt (· == ';') (lead ++ chain first []) = [lead ++ (first.text ++ [])] := by
      simpa [chain, attach, cutAt] using cutAt_over one []
    rw [cut, mapM_filter_cons_iff (shown first lead [])]
    simp only [List.filter_nil, List.mapM_nil, pure_eq_ok, first.readClause_iff blank blank_nil]
    constructor
    · rintro ⟨_, _, ⟨fits, rfl⟩, rfl, rfl⟩
      exact ⟨⟨fits, by simp⟩, rfl⟩
    · rintro ⟨⟨fits, -⟩, rfl⟩
      exact ⟨_, _, ⟨fits, rfl⟩, rfl, rfl⟩
  | cons l links ih =>
    have one : ';' ∉ lead ++ (first.text ++ l.before) := by
      simpa using ⟨no_semicolon_of_blank blank, first.no_semicolon, no_semicolon_of_blank l.blank⟩
    have text : lead ++ chain first (l :: links) =
        lead ++ (first.text ++ l.before) ++ ';' :: (l.after ++ chain l.clause links) := by
      simp [chain_cons]
    rw [text, cutAt_behind one, mapM_filter_cons_iff (shown first lead _)]
    simp only [first.readClause_iff blank l.blank, ih l.blank']
    constructor
    · rintro ⟨_, _, ⟨fits, rfl⟩, ⟨⟨here, later⟩, rfl⟩, rfl⟩
      exact ⟨⟨fits, List.forall_mem_cons.2 ⟨here, later⟩⟩, rfl⟩
    · rintro ⟨⟨fits, each⟩, rfl⟩
      exact ⟨_, _, ⟨fits, rfl⟩, ⟨List.forall_mem_cons.1 each, rfl⟩, rfl⟩

/-! ### The whole cell -/

theorem lowerChar_alpha {c : Char} (h : c.isAlpha = true) : lowerChar c = [c.toLower] := by
  have := isAlpha_iff.1 h
  rw [lowerChar, if_pos (by omega)]

/-- A short text of letters and digits is silent if it is not the one short unsupported word. -/
theorem silent_of_length (plain : ∀ c ∈ cs, isDigit c = true ∨ c.isAlpha = true) (short : cs.length ≤ 5)
    (other : cs.map Char.toLower ≠ "coreq".toList) : Silent cs := by
  have same : cs.flatMap lowerChar = cs.map Char.toLower := by
    rw [List.map_eq_flatMap]
    refine List.flatMap_congr fun c hc => ?_
    rcases plain c hc with digit | alpha
    · have upper : c.isUpper = false := by
        have other := Course.isAlpha_of_isDigit digit
        simp_all [Char.isAlpha]
      rw [(lowerChar_of_isDigit digit).1, Char.toLower_eq_of_not_isUpper (by simp [upper])]
    · exact lowerChar_alpha alpha
  rw [Silent, same]
  exact quiet_of_length short other

theorem Code.silent (c : Code) : Silent c.item.text := by
  have department : Silent c.department := by
    refine silent_of_length (fun x hx => .inr (c.named.letters x hx)) c.named.size.2 fun spelled => c.supported ?_
    have same : Alike c.department "COREQ".toList := spelled
    have upper := same.upper
    rw [c.upper_department] at upper
    exact upper
  have number : Silent c.number := by
    have chars := (Course.isNumber_chars c.named.number).2
    obtain ⟨d, digits, hn, digit⟩ := c.named.number_digit
    refine silent_of_length (fun x hx => (chars x hx).imp_right fun letter =>
      by rwa [← Course.isLetter_eq_isAlpha]) ?_ fun spelled => ?_
    · have number := c.named.number
      unfold Course.isNumber at number
      split at number
      · next text => simp [text]
      · next text => simp [text]
      · cases number
    · rw [hn] at spelled
      rw [← Course.isDigit_toLower, (List.cons.inj spelled).1] at digit
      exact absurd digit (by decide)
  have text : c.item.text = c.department ++ ' ' :: c.number := by simp [Item.text, item, spaced]
  rw [text, silent_cut (mute_of_isBlank isBlank_space)]
  exact ⟨department, number⟩

theorem Clause.silent (c : Clause) : Silent c.text := by
  refine c.induction (fun a b ha hb => ?_) Code.silent
  have separator : Silent "or".toList := silent_of_length (by simp) (by simp) (by simp)
  have text : a ++ " or ".toList ++ b = a ++ ' ' :: ("or".toList ++ ' ' :: b) := by simp
  rw [text, silent_cut (mute_of_isBlank isBlank_space), silent_cut (mute_of_isBlank isBlank_space)]
  exact ⟨ha, separator, hb⟩

/-- Blanks do not count for the unsupported words. -/
theorem silent_behind (blank : Blank lead) (h : Silent b) : Silent (lead ++ b) := by
  induction lead with
  | nil => exact h
  | cons c lead ih =>
    obtain ⟨hc, hl⟩ := List.forall_mem_cons.1 blank
    exact (silent_cut (mute_of_isBlank hc)).2 ⟨silent_nil, ih hl⟩

theorem silent_before (blank : Blank pad) (h : Silent a) : Silent (a ++ pad) := by
  cases pad with
  | nil => rwa [List.append_nil]
  | cons c pad =>
    obtain ⟨hc, hp⟩ := List.forall_mem_cons.1 blank
    have bare := silent_behind hp silent_nil
    exact (silent_cut (mute_of_isBlank hc)).2 ⟨h, by rwa [List.append_nil] at bare⟩

theorem silent_chain (first : Clause) (links : List Link) : Silent (chain first links) := by
  induction links generalizing first with
  | nil => simpa [chain] using first.silent
  | cons l links ih =>
    rw [chain_cons, ← List.append_assoc, silent_cut (mute_of_mark (by simp))]
    exact ⟨silent_before l.blank first.silent, silent_behind l.blank' (ih l.clause)⟩

theorem ends_chain (first : Clause) (links : List Link) :
    ∃ x ∈ (chain first links).getLast?, isBlank x = false := by
  induction links generalizing first with
  | nil => simpa [chain] using first.ends
  | cons l links ih =>
    have text : chain first (l :: links) = (first.text ++ (l.before ++ ';' :: l.after)) ++ chain l.clause links := by
      simp [chain_cons]
    rw [text]
    exact last_append_of_some (ih l.clause) _

/-- A course stands in front of the separator, of a semicolon or of nothing. -/
theorem choice?_chain (first : Clause) (links : List Link) : choice? (chain first links) = none := by
  obtain ⟨rest, split, behind⟩ := first.front
  rw [chain, split, List.append_assoc]
  refine first.first.item.parts.choice? ?_
  rcases behind with rfl | ⟨more, rfl⟩
  · cases links with
    | nil => exact follows_nil
    | cons l links =>
      have text : [] ++ (l :: links).flatMap Link.text =
          l.before ++ ';' :: (l.after ++ (l.clause.text ++ links.flatMap Link.text)) := by
        simp [Link.text]
      rw [text]
      exact follows_behind l.blank ⟨by decide, by decide⟩ (by decide)
  · rw [List.append_assoc]
    exact separator_or.follows _

end DegreePlan.Requirement.Prose

namespace DegreePlan.Requirement

open DegreePlan.Text Prose

/-- Blanks around clauses do not change what a cell means, except in front of a clause that begins with the department
    `OR`: there any blank gets the cell refused. -/
theorem spacing_neutral_iff {lead trail : List Char} (blank : Blank lead) (blank' : Blank trail) :
    ofProse (String.ofList (lead ++ trail)) = .ok none ∧
    ∀ (first : Clause) (links : List Link) (cell : Option Requirement),
      ofProse (String.ofList (lead ++ (chain first links ++ trail))) = .ok cell ↔
        (∀ l ∈ links, l.clause.first.department = "OR".toList → l.after = []) ∧
          cell = some (joined .all (first.meaning :: links.map (·.clause.meaning))) := by
  refine ⟨?_, fun first links cell => ?_⟩
  · have bare : trim (lead ++ trail) = [] := by
      rw [trim, List.dropWhile_eq_nil_iff.2 (blank.append blank')]
      rfl
    simp only [ofProse, String.toList_ofList, bare]
    rfl
  · have trimmed : trim (lead ++ (chain first links ++ trail)) = chain first links := by
      have starts : ∃ x ∈ (chain first links).head?, isBlank x = false := first.starts _
      exact trim_within blank starts (ends_chain first links) blank'
    have digit : ∃ c ∈ chain first links, isDigit c = true := by
      obtain ⟨c, hc, digit⟩ := first.first.item.parts.digit
      obtain ⟨rest, split, -⟩ := first.front
      exact ⟨c, by simp [chain, split, hc], digit⟩
    have read (rs : List Requirement) :
        ((cutAt (· == ';') (chain first links)).filter hasContent).mapM readClause = .ok rs ↔
        (∀ l ∈ links, l.clause.first.department = "OR".toList → l.after = []) ∧
          rs = first.meaning :: links.map (·.clause.meaning) := by
      have bare : ((cutAt (· == ';') ([] ++ chain first links)).filter hasContent).mapM readClause = .ok rs ↔ _ :=
        mapM_chain blank_nil
      simpa using bare
    rw [ofProse_clauses trimmed digit (choice?_chain first links), readClauses_eq_ok]
    simp only [silent_chain, true_and, read]
    constructor
    · rintro ⟨_, ⟨fits, rfl⟩, rfl⟩
      exact ⟨fits, by simp⟩
    · rintro ⟨fits, rfl⟩
      exact ⟨_, ⟨fits, rfl⟩, by simp⟩

/-- A course of the department `OR`, and one of another department. -/
def operations : Code := ⟨"OR".toList, "1301".toList, ⟨by simp, by decide, by decide⟩, by decide, by decide⟩

def calculus : Code := ⟨"MATH".toList, "1551".toList, ⟨by simp, by decide, by decide⟩, by decide, by decide⟩

/-- Blanks of several kinds around three clauses, none of them in front of the department `OR`. -/
theorem spacing_neutral_iff_padded :
    ofProse " \t" = .ok none ∧
      ofProse " MATH 1551 ;OR 1301\n ;\t MATH 1551 or OR 1301\t" =
        .ok
          (some (.all [course "MATH 1551" none, course "OR 1301" none,
            .any [course "MATH 1551" none, course "OR 1301" none]])) := by
  have blank (text : String) (h : text.toList.all isBlank = true) : Blank text.toList :=
    fun c hc => List.all_eq_true.1 h c hc
  let links : List Link := [⟨" ".toList, [], ⟨operations, []⟩, blank " " (by decide), blank_nil⟩,
    ⟨"\n ".toList, "\t ".toList, ⟨calculus, [operations]⟩, blank "\n " (by decide), blank "\t " (by decide)⟩]
  obtain ⟨bare, padded⟩ := spacing_neutral_iff (blank " " (by decide)) (blank "\t" (by decide))
  exact ⟨bare, (padded ⟨calculus, []⟩ links _).2 ⟨by simp [links, calculus], rfl⟩⟩

/-- A blank in front of the department `OR` gets the cell refused. -/
theorem spacing_refuses_operations :
    ofProse "MATH 1551;OR 1301" = .ok (some (.all [course "MATH 1551" none, course "OR 1301" none])) ∧
      ofProse "MATH 1551; OR 1301" = .error (.tree (.notACourse "1301")) :=
  ⟨(ofProse_eq_readClauses (by decide +kernel) (by decide +kernel) (by cbv)).trans (by cbv),
    (ofProse_eq_readClauses (by decide +kernel) (by decide +kernel) (by cbv)).trans (by cbv)⟩

end DegreePlan.Requirement
