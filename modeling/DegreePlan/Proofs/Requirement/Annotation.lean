import DegreePlan.Proofs.Requirement.Token

/-!
# Annotations

A remark in brackets behind a course is dropped, and the cell means what it means without it: unless the course
carries a minimum grade, which is then lost or refused with the remark, and unless a semicolon or a separator in the
remark tears it apart before it is seen as one.
-/

namespace DegreePlan.Requirement.Prose

open DegreePlan.Text

variable {a b cs front back lead name rest t u v w : List Char} {c : Char} {l : Letter} {r : Requirement}

/-! ## Reading one course -/

/-- A minimum grade that is split off stands behind a name. -/
theorem splitMinimumFrom_eq_some {before : List Char} (h : splitMinimumFrom before cs = some (name, l)) :
    ∃ x y, cs = x ++ y ∧ name = before.reverse ++ x ∧ minimum? y = some l := by
  induction cs generalizing before with
  | nil => cases h
  | cons c cs ih =>
    simp only [splitMinimumFrom] at h
    split at h
    · cases h
    · split at h
      · next found =>
        obtain ⟨rfl, rfl⟩ := Prod.mk.inj (Option.some.inj h)
        exact ⟨[c], cs, rfl, by simp, found⟩
      · obtain ⟨x, y, rfl, rfl, found⟩ := ih h
        exact ⟨c :: x, y, rfl, by simp, found⟩

theorem splitMinimumFrom_eq_none {before : List Char} (h : ∀ y, y <:+ cs → minimum? y = none) :
    splitMinimumFrom before cs = none := by
  rw [← Option.not_isSome_iff_eq_none, Option.isSome_iff_exists]
  rintro ⟨⟨name, l⟩, found⟩
  obtain ⟨x, y, rfl, -, least⟩ := splitMinimumFrom_eq_some found
  rw [h y (List.suffix_append x y)] at least
  cases least

/-- Reads a name as a course with a minimum grade or with none. -/
def readName (name : List Char) (least : Option Letter) : Except Fault Requirement :=
  match Course.codeOfChars? (trim (dropRemarks name)) with
  | some code => .ok (course (String.ofList code) least)
  | none => .error (.tree (.notACourse (String.ofList (trim (dropRemarks name)))))

theorem readName_eq_ok {least : Option Letter} : readName name least = .ok r ↔
    ∃ code, Course.codeOfChars? (trim (dropRemarks name)) = some code ∧ r = course (String.ofList code) least := by
  unfold readName
  split
  · next code hc => simp [hc, eq_comm]
  · next hc => simp [hc]

theorem readCourse_eq (cs : List Char) : readCourse cs =
    match splitMinimumFrom [] (trimToken cs) with
    | some (name, l) => readName name (some l)
    | none => readName (trimToken cs) none := by
  simp only [readCourse, readName]
  cases splitMinimumFrom [] (trimToken cs) <;> rfl

/-- What is read as a course has a name that is taken for a code, and perhaps a minimum grade behind it. -/
theorem readCourse_eq_ok (h : readCourse cs = .ok r) :
    ∃ name form code, trimToken cs = name ++ form ∧ (form = [] ∨ Form form) ∧
    Course.codeOfChars? (trim (dropRemarks name)) = some code := by
  rw [readCourse_eq] at h
  split at h
  · next name l split =>
    obtain ⟨x, form, text, hx, least⟩ := splitMinimumFrom_eq_some split
    obtain ⟨code, hc, -⟩ := readName_eq_ok.1 h
    exact ⟨name, form, code, by simpa [hx] using text, .inr (form_of_minimum? least), hc⟩
  · obtain ⟨code, hc, -⟩ := readName_eq_ok.1 h
    exact ⟨_, [], code, by simp, .inl rfl, hc⟩

theorem trim_front (shown : isBlank c = false) (cs : List Char) : ∃ w, trim (c :: cs) = c :: w :=
  ⟨dropEndWhile isBlank cs, by
    rw [trim, dropWhile_of_head (by simpa using shown)]
    exact dropEndWhile_append (a := [c]) ⟨c, rfl, shown⟩ cs⟩

theorem trimToken_front (shown : isBlank c = false) (other : c ≠ '.') (cs : List Char) :
    ∃ w, trimToken (c :: cs) = c :: w := by
  obtain ⟨w, hw⟩ := trim_front shown cs
  rw [trimToken, hw]
  exact ⟨_, dropEndWhile_append (a := [c]) ⟨c, rfl, by simpa using other⟩ w⟩

/-- No remark begins with a sign other than a bracket. -/
theorem dropRemarks_front (shown : isBlank c = false) (other : c ≠ '(') (cs : List Char) :
    dropRemarks (c :: cs) = c :: dropRemarks cs := by
  refine dropRemarks_none ?_
  rw [← Option.not_isSome_iff_eq_none, Option.isSome_iff_exists]
  rintro ⟨rest, found⟩
  obtain ⟨gap, inside, blank, here⟩ := afterRemark?_eq_some found
  cases gap with
  | nil => exact other (List.cons.inj here).1
  | cons g gap =>
    obtain ⟨rfl, -⟩ := List.cons.inj here
    exact Bool.false_ne_true (shown.symm.trans (blank c (by simp)))

/-- A text that begins with a sign but no bracket is read as a course only if the sign is a letter. -/
theorem readCourse_front (shown : isBlank c = false) (plain : c ≠ '(' ∧ c ≠ '.')
    (h : readCourse (c :: cs) = .ok r) : c.isAlpha = true := by
  obtain ⟨w, token⟩ := trimToken_front shown plain.2 cs
  obtain ⟨name, form, code, split, -, hc⟩ := readCourse_eq_ok h
  obtain ⟨letters, gap, number, named, -, text, -⟩ := Course.codeOfChars?_eq_some hc
  obtain ⟨l, letters, rfl, alpha⟩ := named.department_letter
  rw [token] at split
  cases name with
  | nil =>
    have bare : trim (dropRemarks []) = [] := by
      rw [dropRemarks_of_not_mem (by simp)]
      rfl
    rw [bare] at text
    cases text
  | cons d name =>
    obtain ⟨rfl, -⟩ := List.cons.inj split
    obtain ⟨w', hw⟩ := trim_front shown (dropRemarks name)
    rw [dropRemarks_front shown plain.1, hw] at text
    obtain ⟨rfl, -⟩ := List.cons.inj text
    exact alpha

theorem mem_trim (h : c ∈ cs) (shown : isBlank c = false) : c ∈ trim cs := by
  obtain ⟨a, b, rfl⟩ := List.append_of_mem h
  have split : a ++ c :: b = (a ++ [c]) ++ b := by simp
  rw [trim, dropWhile_append ⟨c, rfl, shown⟩, ← List.singleton_append, ← List.append_assoc,
    dropEndWhile_append ⟨c, by simp, shown⟩]
  simp

/-- A text with an open bracket is not read as a course. -/
theorem readCourse_open (outside : ')' ∉ v) : readCourse (u ++ '(' :: v) ≠ .ok r := by
  intro h
  obtain ⟨name, form, code, split, graded, hc⟩ := readCourse_eq_ok h
  -- the bracket stays in the token
  obtain ⟨u', v', token, outside⟩ : ∃ u' v', trimToken (u ++ '(' :: v) = u' ++ '(' :: v' ∧ ')' ∉ v' := by
    have bracket (u v : List Char) : u ++ '(' :: v = (u ++ ['(']) ++ v := by simp
    refine ⟨u.dropWhile isBlank, dropEndWhile (· == '.') (dropEndWhile isBlank v), ?_, fun hc => outside ?_⟩
    · rw [trimToken, trim, dropWhile_append ⟨'(', rfl, by decide⟩, bracket,
        dropEndWhile_append ⟨'(', by simp, by decide⟩, dropEndWhile_append ⟨'(', by simp, by decide⟩,
        ← bracket]
    · have kept := (List.rdropWhile_prefix (· == '.') _).subset hc
      exact (List.rdropWhile_prefix isBlank v).subset kept
  have closed (front back : List Char) (text : form = front ++ '(' :: back) : ')' ∈ back := by
    rcases graded with rfl | form
    · simp at text
    · exact form.closed text
  have opened : '(' ∈ dropRemarks name := by
    rw [token] at split
    rcases List.append_eq_append_iff.1 split with ⟨as, rfl, tail⟩ | ⟨bs, rfl, tail⟩
    · cases as with
      | nil => exact absurd (closed [] v' (by simpa using tail.symm)) outside
      | cons c as =>
        obtain ⟨rfl, rfl⟩ := List.cons.inj tail
        exact mem_dropRemarks fun hc => outside (by simp [hc])
    · exact absurd (closed bs v' tail) outside
  obtain ⟨letters, gap, number, named, separates, text, -⟩ := Course.codeOfChars?_eq_some hc
  exact Parts.not_mem_name named separates (.inr rfl) (text ▸ mem_trim opened (by decide))

/-! ## A course with a remark -/

/-- Full stops, which may stand behind a course. -/
def Stops (cs : List Char) : Prop := ∀ c ∈ cs, c = '.'

theorem stops_nil : Stops [] := by simp [Stops]

theorem trimToken_around (front : ∀ c ∈ w.head?, isBlank c = false)
    (back : ∃ c ∈ w.getLast?, isBlank c = false ∧ c ≠ '.') {stops pad : List Char}
    (blank : Blank lead) (dots : Stops stops) (blank' : Blank pad) :
    trimToken (lead ++ (w ++ (stops ++ pad))) = w := by
  obtain ⟨c, hc, shown, other⟩ := back
  have start : ∀ c ∈ (w ++ (stops ++ pad)).head?, isBlank c = false := by
    cases w with
    | nil => cases hc
    | cons d w => exact front
  have ends : ∀ c ∈ stops.getLast?, isBlank c = false := fun d hd => by
    rw [dots d (List.mem_of_getLast? hd)]
    decide
  rw [trimToken, trim, List.dropWhile_append_of_pos blank, dropWhile_of_head start,
    dropEndWhile_append ⟨c, hc, shown⟩, dropEndWhile_of_all blank', dropEndWhile_of_last ends,
    dropEndWhile_append ⟨c, hc, by simpa using other⟩]
  have bare : dropEndWhile (· == '.') ([] ++ stops) = [] := dropEndWhile_of_all (by simpa [Stops] using dots)
  rw [show dropEndWhile (· == '.') stops = [] from bare, List.append_nil]

/-- A remark: a text in brackets behind a space. -/
def remark (a : List Char) : List Char := ' ' :: '(' :: (a ++ [')'])

/-- In front of a remark that ends a minimum grade stands nothing but blanks. -/
theorem blank_of_form_remark (form : Form (u ++ remark a)) : Blank u := by
  have silent {cs : List Char} : (∀ c ∈ cs, Spoken c) → '(' ∉ cs := not_mem_of_spoken (by simp)
  rcases form.parts with spoken | ⟨gap, inside, rest, same, blank, spoken, bare⟩
  · exact absurd (by simp [remark]) (silent spoken)
  · have same : gap ++ '(' :: (inside ++ ')' :: rest) = (u ++ [' ']) ++ '(' :: (a ++ [')']) := by
      rw [← same]
      simp [remark]
    obtain ⟨rfl, -, -⟩ := (List.append_cons_inj_of_notMem (silent (spoken_of_blank blank))
      (by simpa using ⟨silent spoken, silent (spoken_of_blank bare)⟩)).1 same
    exact fun c hc => blank c (List.mem_append_left _ hc)

/-- No minimum grade begins inside a remark. -/
theorem not_form_inside (outside : '(' ∉ a ∧ ')' ∉ a) (text : a ++ [')'] = u ++ w) : ¬ Form w := by
  intro form
  have last : ')' ∈ w := by
    refine List.mem_of_getLast? ?_
    rw [← List.getLast?_append_of_ne_nil u form.ne_nil, ← text]
    simp
  rcases form.parts with spoken | ⟨gap, inside, rest, rfl, -⟩
  · exact not_mem_of_spoken (by simp) spoken last
  · have opened : '(' ∈ a ++ [')'] := by rw [text]; simp
    simp [outside.1] at opened

/-- No minimum grade ends a token with a remark behind it. -/
theorem minimum?_remark (h : Parts t) (outside : '(' ∉ a ∧ ')' ∉ a)
    (other : minimum? ('(' :: (a ++ [')'])) = none) (behind : w <:+ t ++ remark a) : minimum? w = none := by
  have spaced : minimum? (remark a) = none := by
    rw [← other, minimum?, minimum?, remark, List.dropWhile_cons, if_pos isBlank_space]
  rw [← Option.not_isSome_iff_eq_none, Option.isSome_iff_exists]
  rintro ⟨l, found⟩
  have form := form_of_minimum? found
  obtain ⟨u, split⟩ := behind
  rcases List.append_eq_append_iff.1 split with ⟨as, rfl, rfl⟩ | ⟨bs, rfl, text⟩
  · -- the minimum grade begins before the remark, where the token ends with a sign
    cases as with
    | nil => rw [List.nil_append, spaced] at found; cases found
    | cons c as =>
      obtain ⟨d, hd, shown, -⟩ := h.back
      have last : d ∈ c :: as := List.mem_of_getLast? (by rwa [List.getLast?_append_of_ne_nil _ (by simp)] at hd)
      exact Bool.false_ne_true (shown.symm.trans (blank_of_form_remark form d last))
  · -- it begins with the remark or inside it
    rcases bs with _ | ⟨x, _ | ⟨y, bs⟩⟩
    · rw [show w = remark a from text.symm, spaced] at found; cases found
    · obtain ⟨-, rfl⟩ := List.cons.inj text
      rw [other] at found; cases found
    · exact not_form_inside outside (List.cons.inj (List.cons.inj text).2).2 form

theorem Parts.trimToken (h : Parts t) {stops pad : List Char} (blank : Blank lead) (dots : Stops stops)
    (blank' : Blank pad) : trimToken (lead ++ (t ++ (stops ++ pad))) = t := by
  obtain ⟨c, rest, rfl, alpha⟩ := h.front
  exact trimToken_around (by simpa using isBlank_of_isAlpha alpha) h.back blank dots blank'

theorem Parts.trimToken_self (h : Parts t) : Prose.trimToken t = t := by
  simpa using h.trimToken blank_nil stops_nil blank_nil

/-- A token may stand behind blanks and in front of full stops and blanks. -/
theorem Parts.readCourse (h : Parts t) {stops pad : List Char} (blank : Blank lead) (dots : Stops stops)
    (blank' : Blank pad) : readCourse (lead ++ (t ++ (stops ++ pad))) = readCourse t := by
  rw [readCourse_eq, readCourse_eq, h.trimToken blank dots blank', h.trimToken_self]

/-- A token with a remark behind it is read as a name with no minimum grade. -/
theorem readCourse_remark (h : Parts t) (outside : '(' ∉ a ∧ ')' ∉ a)
    (other : minimum? ('(' :: (a ++ [')'])) = none) {stops pad : List Char} (blank : Blank lead)
    (dots : Stops stops) (blank' : Blank pad) :
    readCourse (lead ++ (t ++ remark a ++ (stops ++ pad))) = readName t none := by
  have token : trimToken (lead ++ (t ++ remark a ++ (stops ++ pad))) = t ++ remark a := by
    obtain ⟨c, rest, rfl, alpha⟩ := h.front
    refine trimToken_around (by simpa using isBlank_of_isAlpha alpha) ⟨')', ?_, by decide,
      by decide⟩ blank dots blank'
    simp [remark, List.getLast?_append, List.getLast?_cons]
  rw [readCourse_eq, token, splitMinimumFrom_eq_none fun y hy => minimum?_remark h outside other hy]
  simp only [readName, remark, h.closed.dropRemarks a outside.2]

/-- With a remark a course is read as before if and only if it has no minimum grade. -/
theorem readName_iff (h : Parts t) (read : Prose.readCourse t = .ok r) :
    readName t none = .ok r ↔ ∃ code, Prose.readCourse t = .ok (course code none) := by
  constructor
  · intro named
    obtain ⟨code, -, rfl⟩ := readName_eq_ok.1 named
    exact ⟨_, read⟩
  · rintro ⟨code, plain⟩
    rw [plain] at read
    rw [readCourse_eq, h.trimToken_self] at plain
    split at plain
    · obtain ⟨code, -, graded⟩ := readName_eq_ok.1 plain
      cases graded
    · rw [plain, read]

/-! ## Texts around a course -/

/-- Blanks and semicolons. -/
def Loose (cs : List Char) : Prop := ∀ c ∈ cs, isBlank c = true ∨ c = ';'

/-- What may stand in front of a course: other courses, each with full stops and a separator or a semicolon behind
it. -/
inductive Fore : List Char → Prop where
  | start {lead : List Char} (loose : Loose lead) : Fore lead
  | option {front stops sep : List Char} (before : Fore front) (t : Token) (dots : Stops stops)
    (separator : Separator sep) : Fore (front ++ (t.text ++ (stops ++ sep)))
  | clause {front stops pad lead : List Char} (before : Fore front) (t : Token) (dots : Stops stops) (blank : Blank pad)
    (loose : Loose lead) : Fore (front ++ (t.text ++ (stops ++ (pad ++ ';' :: lead))))

/-- What may stand behind a course: full stops and the end, a separator and more, or a semicolon and more. -/
inductive Aft : List Char → Prop where
  | stop {stops pad : List Char} (dots : Stops stops) (blank : Blank pad) : Aft (stops ++ pad)
  | option {stops sep rest : List Char} (dots : Stops stops) (separator : Separator sep)
    (shown : hasContent rest = true) : Aft (stops ++ (sep ++ rest))
  | clause {stops pad rest : List Char} (dots : Stops stops) (blank : Blank pad) : Aft (stops ++ (pad ++ ';' :: rest))

theorem Separator.spoken {sep : List Char} (h : Separator sep) : ∀ c ∈ sep, Spoken c := by
  cases h with
  | @intro before word after blank shown spelled blank' shown' =>
    have letters : ∀ c ∈ word, Spoken c := fun c hc => by
      have each : ∀ l ∈ word.map foldLetter, l.isAlpha = true := by simp [spelled]
      exact .inr (each _ (List.mem_map_of_mem hc))
    simpa [or_imp, forall_and] using ⟨spoken_of_blank blank, letters, spoken_of_blank blank'⟩

theorem Separator.no_semicolon {sep : List Char} (h : Separator sep) : ';' ∉ sep := fun hc =>
  not_spoken_of_mark (by simp) (h.spoken _ hc)

theorem Stops.shown {stops : List Char} (dots : Stops stops) : ∀ c ∈ stops, isBlank c = false := fun c hc => by
  rw [dots c hc]
  decide

theorem Stops.no_semicolon {stops : List Char} (dots : Stops stops) : ';' ∉ stops :=
  fun hc => absurd (dots _ hc) (by decide)

theorem no_semicolon_of_blank {pad : List Char} (blank : Blank pad) : ';' ∉ pad :=
  fun hc => absurd (blank _ hc) (by decide)

/-! ### What follows a course -/

theorem follows_dots {stops : List Char} (dots : Stops stops) (behind : Follows rest) : Follows (stops ++ rest) := by
  cases stops with
  | nil => exact behind
  | cons c stops =>
    obtain rfl := dots c (by simp)
    exact follows_behind blank_nil ⟨by decide, by decide⟩ (by decide)

theorem Separator.follows {sep : List Char} (h : Separator sep) (b : List Char) : Follows (sep ++ b) := by
  cases h with
  | @intro before word after blank shown spelled blank' shown' =>
    obtain ⟨o, word, rfl, ho, -⟩ := List.map_eq_cons_iff.1 spelled
    have text : before ++ (o :: word ++ after) ++ b = before ++ o :: (word ++ after ++ b) := by simp
    rw [text]
    exact follows_behind blank (letter_plain (by rw [ho]; decide)) (by rw [ho]; decide)

theorem Aft.follows (after : Aft back) : Follows back := by
  cases after with
  | @stop stops pad dots blank =>
    refine follows_dots dots ⟨fun c hc => ?_, ?_⟩
    · rw [← Bool.not_eq_true]
      exact fun digit => Bool.false_ne_true ((isBlank_of_isDigit digit).symm.trans (blank c (List.mem_of_head? hc)))
    · rw [List.dropWhile_eq_nil_iff.2 blank]
      simp
  | option dots separator => exact follows_dots dots (separator.follows _)
  | clause dots blank => exact follows_dots dots (follows_behind blank ⟨by decide, by decide⟩ (by decide))

/-- With a course behind it a text is no choice, be it empty or no choice either. -/
theorem Token.choice?_behind (t : Token) {tail : List Char} (follows : ∀ b, Follows (tail ++ b))
    (before : front = [] ∨ ∀ b, Prose.choice? (front ++ b) = none) (b : List Char) :
    Prose.choice? (front ++ (t.text ++ tail) ++ b) = none := by
  rcases before with rfl | no_choice
  · rw [List.nil_append, List.append_assoc]
    exact t.parts.choice? (follows b)
  · rw [List.append_assoc]
    exact no_choice _

/-- A text with a course in it is no choice. -/
theorem Fore.choice? (before : Fore front) (trimmed : ∀ c ∈ front.head?, isBlank c = false) :
    front = [] ∨ ∀ b, choice? (front ++ b) = none := by
  have initial {front tail : List Char} (trimmed : ∀ c ∈ (front ++ tail).head?, isBlank c = false) :
      ∀ c ∈ front.head?, isBlank c = false := fun c hc => trimmed c (by cases front <;> simp_all)
  induction before with
  | @start lead loose =>
    cases lead with
    | nil => exact .inl rfl
    | cons c lead =>
      obtain rfl : c = ';' := (loose c (by simp)).resolve_left (by simpa using trimmed)
      have bare (b : List Char) :
          ((afterWord? "any".toList (';' :: (lead ++ b))).bind afterBlanks?).getD (';' :: (lead ++ b)) =
          ';' :: (lead ++ b) := rfl
      refine .inr fun b => choice?_none (bare b) fun count rest x split => ?_
      rw [splitCount?_none (by decide) (by decide)] at split
      cases split
  | @option front stops sep before t dots separator ih =>
    refine .inr (t.choice?_behind (fun b => ?_) (ih (initial trimmed)))
    rw [List.append_assoc]
    exact follows_dots dots (separator.follows b)
  | @clause front stops pad lead before t dots blank loose ih =>
    refine .inr (t.choice?_behind (fun b => ?_) (ih (initial trimmed)))
    rw [List.append_assoc, List.append_assoc]
    exact follows_dots dots (follows_behind blank ⟨by decide, by decide⟩ (by decide))

/-! ### Blanks at the ends -/

theorem Token.starts (t : Token) : ∃ c ∈ t.text.head?, isBlank c = false := by
  obtain ⟨c, rest, text, alpha⟩ := t.parts.front
  exact ⟨c, by rw [text]; rfl, isBlank_of_isAlpha alpha⟩

theorem Fore.dropWhile (before : Fore front) : Fore (front.dropWhile isBlank) := by
  induction before with
  | start loose => exact .start fun c hc => loose c ((List.dropWhile_suffix isBlank).subset hc)
  | option before t dots separator ih =>
    rw [dropWhile_append (head_append_of_some t.starts _)]
    exact .option ih t dots separator
  | clause before t dots blank loose ih =>
    rw [dropWhile_append (head_append_of_some t.starts _)]
    exact .clause ih t dots blank loose

theorem Aft.dropEndWhile (after : Aft back) : Aft (dropEndWhile isBlank back) := by
  cases after with
  | @stop stops pad dots blank =>
    rw [dropEndWhile_of_all blank, dropEndWhile_of_last fun c hc => dots.shown c (List.mem_of_getLast? hc)]
    simpa using Aft.stop dots blank_nil
  | @option stops sep rest dots separator shown =>
    obtain ⟨c, hc, plain⟩ : ∃ c ∈ rest, isBlank c = false := by simpa [hasContent] using shown
    obtain ⟨a, b, rfl⟩ := List.append_of_mem hc
    have split (u : List Char) : u ++ (a ++ c :: b) = (u ++ (a ++ [c])) ++ b := by simp
    have cut (u : List Char) :
        Text.dropEndWhile isBlank (u ++ (a ++ c :: b)) = u ++ (a ++ c :: Text.dropEndWhile isBlank b) := by
      rw [split, dropEndWhile_append ⟨c, by simp, plain⟩]
      simp
    rw [← List.append_assoc, cut, List.append_assoc]
    exact .option dots separator (by simp [hasContent, plain])
  | @clause stops pad rest dots blank =>
    have split : stops ++ (pad ++ ';' :: rest) = (stops ++ (pad ++ [';'])) ++ rest := by simp
    rw [split, dropEndWhile_append ⟨';', by simp, by decide⟩]
    simpa using Aft.clause dots blank

/-- Only the blanks at the ends of a text go away. -/
theorem trim_around (starts : ∃ c ∈ u.head?, isBlank c = false) (ends : ∃ c ∈ u.getLast?, isBlank c = false) :
    trim (front ++ (u ++ back)) = front.dropWhile isBlank ++ (u ++ dropEndWhile isBlank back) := by
  rw [trim, dropWhile_append (head_append_of_some starts back), ← List.append_assoc,
    dropEndWhile_append (last_append_of_some ends _), List.append_assoc]

theorem trim_within {pad : List Char} (blank : Blank lead) (starts : ∃ c ∈ u.head?, isBlank c = false)
    (ends : ∃ c ∈ u.getLast?, isBlank c = false) (blank' : Blank pad) : trim (lead ++ (u ++ pad)) = u := by
  have none : dropEndWhile isBlank ([] ++ pad) = [] := dropEndWhile_of_all blank'
  rw [trim_around starts ends, List.dropWhile_eq_nil_iff.2 blank, ← List.nil_append pad, none,
    List.nil_append, List.append_nil]

/-! ### Clauses and alternatives around a course -/

theorem alternatives_dots {stops : List Char} (dots : Stops stops) (b : List Char) :
    alternatives false (stops ++ b) = attach stops (alternatives false b) := (solid_of_shown dots.shown).alternatives b

/-- Blanks and semicolons are clauses without content and the beginning of one. -/
theorem cutAt_loose (loose : Loose lead) : ∃ clauses pad, Blank pad ∧
    ∀ b, cutAt (· == ';') (lead ++ b) = clauses ++ attach pad (cutAt (· == ';') b) := by
  induction lead with
  | nil => exact ⟨[], [], blank_nil, fun b => cutAt_over (by simp) b⟩
  | cons c lead ih =>
    obtain ⟨hc, hl⟩ := List.forall_mem_cons.1 loose
    obtain ⟨clauses, pad, blank, cut⟩ := ih hl
    rcases hc with hc | rfl
    · have next (b : List Char) : cutAt (· == ';') (c :: lead ++ b) = attach [c] (cutAt (· == ';') (lead ++ b)) :=
        cutAt_over (a := [c]) (no_semicolon_of_blank (by simpa [Blank] using hc)) _
      cases clauses with
      | nil =>
        refine ⟨[], c :: pad, List.forall_mem_cons.2 ⟨hc, blank⟩, fun b => ?_⟩
        rw [next, cut, List.nil_append, attach_attach]
        rfl
      | cons clause clauses => exact ⟨(c :: clause) :: clauses, pad, blank, fun b => by rw [next, cut]; rfl⟩
    · exact ⟨[] :: clauses, pad, blank, fun b => by rw [List.cons_append, cutAt_semicolon, cut]; rfl⟩

/-- The clauses and the alternatives of a text that end before its last clause and its last alternative. -/
structure Front (front : List Char) (clauses : List (List Char)) (clause : List Char) (options : List (List Char))
    (lead : List Char) : Prop where
  cut : ∀ b, cutAt (· == ';') (front ++ b) = clauses ++ attach clause (cutAt (· == ';') b)
  blank : Blank lead
  pieces : ∀ b, (∃ c ∈ b.head?, isBlank c = false) →
    alternatives false (clause ++ b) = options ++ alternatives false (lead ++ b)

/-- Behind a course and a separator a new alternative begins. -/
theorem Token.alternatives_behind (t : Token) {stops sep : List Char} (blank : Blank lead) (dots : Stops stops)
    (separator : Separator sep) : ∃ more, ∀ b, (∃ c ∈ b.head?, isBlank c = false) →
      alternatives false (lead ++ (t.text ++ (stops ++ (sep ++ b)))) = more ++ alternatives false b := by
  have taken (b : List Char) (hb : ∃ c ∈ b.head?, isBlank c = false) :
      alternatives false (stops ++ (sep ++ b)) = stops :: alternatives false b := by
    rw [alternatives_dots dots, alternatives_or (separator.taken b), dropWhile_of_some hb]
    exact congrArg (· :: _) (List.append_nil stops)
  rcases t.parts.pieces blank with whole | ⟨rest, -, torn⟩
  · exact ⟨[lead ++ t.text ++ stops], fun b hb => by rw [whole, taken b hb]; rfl⟩
  · exact ⟨[[], rest ++ stops], fun b hb => by rw [torn, taken b hb]; rfl⟩

theorem Fore.place (before : Fore front) :
    ∃ clauses clause options lead, Front front clauses clause options lead := by
  induction before with
  | start loose =>
    obtain ⟨clauses, pad, blank, cut⟩ := cutAt_loose loose
    exact ⟨clauses, pad, [], pad, cut, blank, fun b _ => rfl⟩
  | @option front stops sep before t dots separator ih =>
    obtain ⟨clauses, clause, options, lead, place⟩ := ih
    have inner : ';' ∉ t.text ++ (stops ++ sep) := by
      simpa using ⟨t.parts.no_semicolon, dots.no_semicolon, separator.no_semicolon⟩
    obtain ⟨more, split⟩ := t.alternatives_behind place.blank dots separator
    refine ⟨clauses, clause ++ (t.text ++ (stops ++ sep)), options ++ more, [], fun b => ?_, blank_nil,
      fun b hb => ?_⟩
    · rw [List.append_assoc, place.cut, cutAt_over inner, attach_attach]
    · have text : clause ++ (t.text ++ (stops ++ sep)) ++ b = clause ++ (t.text ++ (stops ++ (sep ++ b))) := by simp
      rw [text, place.pieces _ (head_append_of_some t.starts _), split b hb, List.append_assoc, List.nil_append]
  | @clause front stops pad lead before t dots blank loose ih =>
    obtain ⟨clauses, clause, options, lead', place⟩ := ih
    obtain ⟨more, pad', blank', cut⟩ := cutAt_loose loose
    have inner : ';' ∉ t.text ++ (stops ++ pad) := by
      simpa using ⟨t.parts.no_semicolon, dots.no_semicolon, no_semicolon_of_blank blank⟩
    refine ⟨clauses ++ (clause ++ (t.text ++ (stops ++ pad))) :: more, pad', [], pad', fun b => ?_, blank',
      fun b _ => rfl⟩
    have text : front ++ (t.text ++ (stops ++ (pad ++ ';' :: lead))) ++ b =
        front ++ ((t.text ++ (stops ++ pad)) ++ ';' :: (lead ++ b)) := by simp
    rw [text, place.cut, cutAt_behind inner, cut]
    simp [attach]

/-- The rest of the alternative behind a course, then the other alternatives and clauses. -/
structure Back (back ending : List Char) (options : List (List Char)) (clause : List Char)
    (clauses : List (List Char)) : Prop where
  cut : cutAt (· == ';') back = clause :: clauses
  pieces : alternatives false clause = ending :: options
  ending : ∃ stops pad, Stops stops ∧ Blank pad ∧ ending = stops ++ pad

theorem Aft.place (after : Aft back) : ∃ ending options clause clauses, Back back ending options clause clauses := by
  cases after with
  | @stop stops pad dots blank =>
    have none : ';' ∉ stops ++ pad := by simpa using ⟨dots.no_semicolon, no_semicolon_of_blank blank⟩
    refine ⟨stops ++ pad, [], stops ++ pad, [], ?_, ?_, stops, pad, dots, blank, rfl⟩
    · simpa [attach, cutAt] using cutAt_over none []
    · rw [alternatives_dots dots, alternatives_blank blank]
      rfl
  | @option stops sep rest dots separator shown =>
    have none : ';' ∉ stops ++ sep := by simpa using ⟨dots.no_semicolon, separator.no_semicolon⟩
    obtain ⟨clause, clauses, cut⟩ := List.exists_cons_of_ne_nil (cutAt_ne_nil (· == ';') rest)
    refine ⟨stops, alternatives false (clause.dropWhile isBlank), stops ++ (sep ++ clause), clauses, ?_, ?_,
      stops, [], dots, blank_nil, by simp⟩
    · rw [← List.append_assoc, cutAt_over none, cut]
      simp [attach]
    · rw [alternatives_dots dots, alternatives_or (separator.taken clause)]
      exact congrArg (· :: _) (List.append_nil stops)
  | @clause stops pad rest dots blank =>
    have none : ';' ∉ stops ++ pad := by simpa using ⟨dots.no_semicolon, no_semicolon_of_blank blank⟩
    refine ⟨stops ++ pad, [], stops ++ pad, cutAt (· == ';') rest, ?_, ?_, stops, pad, dots, blank, rfl⟩
    · rw [← List.append_assoc, cutAt_behind none]
    · rw [alternatives_dots dots, alternatives_blank blank]
      rfl

/-! ## Cells with a remark -/

/-- Nothing in the text ends a clause or an alternative. -/
def Undivided (a : List Char) : Prop := ';' ∉ a ∧ ∀ sep, Separator sep → ¬ sep <:+: a

theorem solid_opening (h : Solid b) : Solid (' ' :: '(' :: b) :=
  (firm_cons (by decide) (by decide) h).behind blank_space

/-- A separator has no bracket, so one that begins in the text ends there. -/
theorem solid_closing (outside : ')' ∉ a) (inside : ∀ sep, Separator sep → ¬ sep <:+: a) :
    Solid (a ++ [')']) := by
  induction a with
  | nil => exact solid_of_shown (by simp; decide)
  | cons c a ih =>
    refine ⟨fun b => ?_, ih (fun hc => outside (List.mem_cons_of_mem c hc)) fun sep separator found =>
      inside sep separator (found.trans (List.suffix_cons c a).isInfix)⟩
    rw [← Option.not_isSome_iff_eq_none, Option.isSome_iff_exists]
    rintro ⟨rest, found⟩
    obtain ⟨sep, separator, text, -⟩ := afterSpacedOr?_eq_some.1 found
    have text : (c :: a) ++ ')' :: b = sep ++ rest := by simpa using text
    rcases List.append_eq_append_iff.1 text with ⟨as, rfl, behind⟩ | ⟨bs, here, -⟩
    · cases as with
      | nil => exact inside _ separator (by simp)
      | cons d as =>
        obtain ⟨rfl, -⟩ := List.cons.inj behind
        exact not_spoken_of_mark (by simp) (separator.spoken ')' (by simp))
    · exact inside sep separator (here ▸ (List.prefix_append sep bs).isInfix)

theorem no_semicolon_remark (h : ';' ∉ a) : ';' ∉ remark a := by simpa [remark] using h

/-- The first alternative ends at a separator at the latest. -/
theorem prefix_of_separator {sep : List Char} (h : Separator sep) (u b : List Char) :
    ∃ piece pieces, alternatives false (u ++ (sep ++ b)) = piece :: pieces ∧ piece <+: u := by
  induction u with
  | nil => exact ⟨[], _, alternatives_or (h.taken b), List.nil_prefix⟩
  | cons c u ih =>
    rw [List.cons_append]
    cases found : afterSpacedOr? (c :: (u ++ (sep ++ b))) with
    | some rest => exact ⟨[], _, alternatives_or found, List.nil_prefix⟩
    | none =>
      obtain ⟨piece, pieces, split, initial⟩ := ih
      exact ⟨c :: piece, pieces, by rw [alternatives_over found (by simp), split]; rfl,
        List.cons_prefix_cons.2 ⟨rfl, initial⟩⟩

/-- A text that is its own only piece is not divided. -/
theorem undivided_of_alternatives (one : ';' ∉ a) (whole : alternatives false a = [a]) : Undivided a := by
  refine ⟨one, fun sep separator => ?_⟩
  rintro ⟨u, v, rfl⟩
  obtain ⟨piece, pieces, split, initial⟩ := prefix_of_separator separator u v
  rw [List.append_assoc, split] at whole
  obtain rfl := (List.cons.inj whole).1
  have shown : 0 < sep.length := by
    cases separator with
    | intro blank shown spelled blank' shown' => simp [List.length_pos_iff.2 shown]
  have := initial.length_le
  simp only [List.length_append] at this
  omega

/-- A remark that is divided is left open by its first piece. -/
theorem open_of_divided (outside : ')' ∉ a) (divided : ¬ Undivided a) (b : List Char) :
    ∃ clause clauses piece pieces,
    cutAt (· == ';') (a ++ b) = clause :: clauses ∧ alternatives false clause = piece :: pieces ∧
    ')' ∉ piece := by
  by_cases semicolon : ';' ∈ a
  · obtain ⟨clause, rest, rfl, none⟩ := List.eq_append_cons_of_mem semicolon
    obtain ⟨piece, pieces, split⟩ := List.exists_cons_of_ne_nil (alternatives_ne_nil false clause)
    refine ⟨clause, _, piece, pieces, by rw [List.append_assoc, List.cons_append, cutAt_behind none], split,
      fun hc => outside ?_⟩
    exact List.mem_append_left _ ((prefix_of_alternatives split).subset hc)
  · obtain ⟨sep, separator, u, v, rfl⟩ : ∃ sep, Separator sep ∧ sep <:+: a := by
      simpa [Undivided, semicolon] using divided
    obtain ⟨clause, clauses, cut⟩ := List.exists_cons_of_ne_nil (cutAt_ne_nil (· == ';') b)
    obtain ⟨piece, pieces, split, initial⟩ := prefix_of_separator separator u (v ++ clause)
    have cut' : cutAt (· == ';') (u ++ sep ++ v ++ b) = (u ++ sep ++ v ++ clause) :: clauses := by
      rw [cutAt_over semicolon, cut]
      rfl
    exact ⟨_, clauses, piece, pieces, cut', by simpa using split, fun hc => outside (by simp [initial.subset hc])⟩

section

variable {clauses options options' clauses' : List (List Char)} {clause clause' ending : List Char}
  {cell : Option Requirement}

theorem Token.hasContent (t : Token) (a b : List Char) : hasContent (a ++ (t.text ++ b)) = true := by
  obtain ⟨c, hc, shown⟩ := t.starts
  exact hasContent_of_mem (by simp [List.mem_of_mem_head? hc]) shown

/-- A course that is read over, with some more text behind it, means its part of the cell. -/
theorem readClauses_token (place : Front front clauses clause options lead)
    (rear : Back back ending options' clause' clauses') (t : Token)
    (whole : ∀ b, alternatives false (lead ++ (t.text ++ b)) =
      attach (lead ++ t.text) (alternatives false b)) (solid :
    Solid w) (one : ';' ∉ w) : readClauses (front ++ (t.text ++ (w ++ back))) = .ok cell ↔
      ∃ leaf, readCourse (lead ++ (t.text ++ (w ++ ending))) = .ok leaf ∧
        Means clauses options options' clauses' leaf cell := by
  have cut : cutAt (· == ';') (front ++ (t.text ++ (w ++ back))) =
      clauses ++ (clause ++ (t.text ++ (w ++ clause'))) :: clauses' := by
    rw [place.cut, cutAt_over t.parts.no_semicolon, cutAt_over one, rear.cut]
    rfl
  refine readClauses_iff cut (t.hasContent _ _) ?_ (t.hasContent _ _)
  rw [place.pieces _ (head_append_of_some t.starts _), whole, solid.alternatives, rear.pieces]
  simp [attach]

/-- A course in an accepted cell is not torn by the separator. -/
theorem whole_of_accepted (place : Front front clauses clause options lead)
    (rear : Back back ending options' clause' clauses') (t : Token)
    (accepted : readClauses (front ++ (t.text ++ back)) = .ok cell) :
    ∀ b, alternatives false (lead ++ (t.text ++ b)) = attach (lead ++ t.text) (alternatives false b) := by
  refine (t.parts.pieces place.blank).resolve_right ?_
  rintro ⟨rest, torn, split⟩
  obtain ⟨c, w, rfl, mark⟩ := torn.front
  have plain : isBlank c = false ∧ c.isAlpha = false ∧ c ≠ '(' ∧ c ≠ '.' := by
    rcases mark with digit | rfl | rfl
    · refine ⟨isBlank_of_isDigit digit, Course.isAlpha_of_isDigit digit, ?_, ?_⟩
      · rintro rfl; exact absurd digit (by decide)
      · rintro rfl; exact absurd digit (by decide)
    · decide
    · decide
  have pieces : alternatives false (clause ++ (t.text ++ clause')) =
      (options ++ [[]]) ++ (c :: w ++ ending) :: options' := by
    rw [place.pieces _ (head_append_of_some t.starts _), split, rear.pieces]
    simp [attach]
  have cut : cutAt (· == ';') (front ++ (t.text ++ back)) =
      clauses ++ (clause ++ (t.text ++ clause')) :: clauses' := by
    rw [place.cut, cutAt_over t.parts.no_semicolon, rear.cut]
    rfl
  obtain ⟨leaf, read, -⟩ :=
    (readClauses_iff cut (t.hasContent _ _) pieces (by simp [hasContent, plain.1])).1 accepted
  exact Bool.false_ne_true (plain.2.1.symm.trans (readCourse_front plain.1 plain.2.2 read))

/-- A remark in an accepted cell is not divided. -/
theorem undivided_of_accepted (place : Front front clauses clause options lead) (t : Token)
    (whole : ∀ b, alternatives false (lead ++ (t.text ++ b)) =
      attach (lead ++ t.text) (alternatives false b)) (outside : ')' ∉ a)
    (accepted : readClauses (front ++ (t.text ++ (remark a ++ back))) = .ok cell) : Undivided a := by
  by_contra divided
  obtain ⟨q, qs, piece, pieces, cut, split, outside⟩ := open_of_divided outside divided (')' :: back)
  have text : front ++ (t.text ++ (remark a ++ back)) = front ++ (t.text ++ ([' ', '('] ++ (a ++ ')' :: back))) := by
    simp [remark]
  have cut : cutAt (· == ';') (front ++ (t.text ++ (remark a ++ back))) =
      clauses ++ (clause ++ (t.text ++ ([' ', '('] ++ q))) :: qs := by
    rw [text, place.cut, cutAt_over t.parts.no_semicolon, cutAt_over (by simp), cut]
    rfl
  have split : alternatives false (clause ++ (t.text ++ ([' ', '('] ++ q))) =
      options ++ (lead ++ (t.text ++ ' ' :: '(' :: piece)) :: pieces := by
    rw [place.pieces _ (head_append_of_some t.starts _), whole, (solid_opening (b := []) trivial).alternatives, split]
    simp [attach]
  obtain ⟨leaf, read, -⟩ := (readClauses_iff cut (t.hasContent _ _) split (t.hasContent _ _)).1 accepted
  have bracket : lead ++ (t.text ++ ' ' :: '(' :: piece) = (lead ++ (t.text ++ [' '])) ++ '(' :: piece := by simp
  exact readCourse_open outside (bracket ▸ read)

end

theorem silent_append (h : Silent (a ++ b)) : Silent a ∧ Silent b := by
  simp only [Silent, List.flatMap_append] at h ⊢
  exact ⟨fun word hw found => h word hw (found.trans (List.prefix_append _ _).isInfix),
    fun word hw found => h word hw (found.trans (List.suffix_append _ _).isInfix)⟩

theorem silent_remark : Silent (u ++ (remark a ++ v)) ↔ Silent u ∧ Silent a ∧ Silent v := by
  have text : remark a ++ v = ' ' :: ([] ++ '(' :: (a ++ ')' :: v)) := by simp [remark]
  rw [text, silent_cut (mute_of_isBlank isBlank_space), silent_cut (mute_of_mark (by simp)),
    silent_cut (mute_of_mark (by simp))]
  simp [silent_nil]

/-- A cell with courses is read clause by clause, without the blanks at its ends. -/
theorem ofProse_around (before : Fore front) (t : Token) (ends : ∃ c ∈ (t.text ++ w).getLast?, isBlank c = false)
    (follows : Follows (w ++ dropEndWhile isBlank back)) {cell : Option Requirement} :
    ofProse (String.ofList (front ++ (t.text ++ (w ++ back)))) = .ok cell ↔
      Silent (front.dropWhile isBlank ++ (t.text ++ (w ++ dropEndWhile isBlank back))) ∧
        readClauses (front.dropWhile isBlank ++ (t.text ++ (w ++ dropEndWhile isBlank back))) = .ok cell := by
  refine ofProse_clauses ?_ ?_ ?_
  · rw [← List.append_assoc t.text, trim_around (head_append_of_some t.starts w) ends, List.append_assoc]
  · obtain ⟨c, hc, digit⟩ := t.parts.digit
    exact ⟨c, by simp [hc], digit⟩
  · rcases before.dropWhile.choice? (head_dropWhile isBlank front) with none | no_choice
    · rw [none, List.nil_append]
      exact t.parts.choice? follows
    · exact no_choice _

end DegreePlan.Requirement.Prose

namespace DegreePlan.Requirement

open DegreePlan.Text Prose

/-- A remark behind a course of an accepted cell changes nothing if and only if the course carries no minimum grade and
    the remark has neither a semicolon nor a separator in it. -/
theorem remark_neutral_iff {front back a : List Char} {t : Token} {tree : Requirement} (before : Fore front)
    (after : Aft back) (accepted : ofProse (String.ofList (front ++ (t.text ++ back))) = .ok (some tree))
    (outside : '(' ∉ a ∧ ')' ∉ a)
    (supported : (unsupportedWords.any fun word => hasInfix word.toList (lower (String.ofList a)).toList) =
      false) (other : minimum? ('(' :: (a ++ [')'])) = none) :
    ofProse (String.ofList (front ++ (t.text ++ (remark a ++ back)))) = .ok (some tree) ↔
      (∃ code, readCourse t.text = .ok (course code none)) ∧ Undivided a := by
  obtain ⟨clauses, clause, options, lead, place⟩ := before.dropWhile.place
  obtain ⟨ending, options', clause', clauses', rear⟩ := after.dropEndWhile.place
  obtain ⟨stops, pad, dots, blank, rfl⟩ := rear.ending
  have plain : ∃ c ∈ (t.text ++ []).getLast?, isBlank c = false := by
    obtain ⟨c, hc, shown, -⟩ := t.parts.back
    exact ⟨c, by simpa using hc, shown⟩
  have bracket : ∃ c ∈ (t.text ++ remark a).getLast?, isBlank c = false :=
    ⟨')', by simp [remark, List.getLast?_append, List.getLast?_cons], by decide⟩
  have opens : Follows (remark a ++ dropEndWhile isBlank back) :=
    follows_behind blank_space ⟨by decide, by decide⟩ (by decide)
  rw [← List.nil_append back, ofProse_around before t plain (by simpa using after.dropEndWhile.follows),
    List.nil_append] at accepted
  rw [ofProse_around before t bracket opens]
  obtain ⟨silent, meant⟩ := accepted
  have whole := whole_of_accepted place rear t meant
  obtain ⟨leaf, read, means⟩ :=
    (readClauses_token place rear t whole (w := []) trivial (by simp)).1 (by simpa using meant)
  rw [List.nil_append, t.parts.readCourse place.blank dots blank] at read
  have annotated (undivided : Undivided a) :
      readClauses (front.dropWhile isBlank ++ (t.text ++ (remark a ++ dropEndWhile isBlank back))) = .ok (some tree) ↔
        ∃ leaf, readName t.text none = .ok leaf ∧ Means clauses options options' clauses' leaf (some tree) := by
    have solid : Solid (remark a) := solid_opening (solid_closing outside.2 undivided.2)
    have remarked := readCourse_remark t.parts outside other place.blank dots blank
    rw [List.append_assoc] at remarked
    rw [readClauses_token place rear t whole solid (no_semicolon_remark undivided.1), remarked]
  constructor
  · rintro ⟨-, changed⟩
    have undivided := undivided_of_accepted place t whole outside.2 changed
    obtain ⟨leaf', read', means'⟩ := (annotated undivided).1 changed
    obtain rfl := means.unique means'
    exact ⟨(readName_iff t.parts read).1 read', undivided⟩
  · rintro ⟨ungraded, undivided⟩
    refine ⟨?_, (annotated undivided).2 ⟨leaf, (readName_iff t.parts read).2 ungraded, means⟩⟩
    rw [← List.append_assoc] at silent ⊢
    exact silent_remark.2 ⟨(silent_append silent).1, silent_iff.2 supported, (silent_append silent).2⟩

/-- Two courses by their codes. -/
def physics : Token := ⟨"PHYS 2211".toList, [], by decide, .inl rfl⟩

def computing : Token := ⟨"CS 1301".toList, [], by decide, .inl rfl⟩

/-- One of two courses together with a third. -/
def introduction : Requirement :=
  .all [.any [course "PHYS 2211" none, course "CS 1301" none], course "MATH 1551" none]

/-- A remark on the second of three courses. -/
theorem remark_neutral_iff_concurrent :
    ofProse "PHYS 2211 or CS 1301; MATH 1551" = .ok (some introduction) ∧
      ofProse "PHYS 2211 or CS 1301 (may be concurrent); MATH 1551" = .ok (some introduction) := by
  have accepted : ofProse "PHYS 2211 or CS 1301; MATH 1551" = .ok (some introduction) :=
    (ofProse_eq_readClauses (by decide +kernel) (by decide +kernel) (by cbv)).trans (by cbv)
  have start : Fore [] := .start (by simp [Loose])
  have before : Fore "PHYS 2211 or ".toList := start.option physics stops_nil separator_or
  have after : Aft "; MATH 1551".toList := .clause stops_nil blank_nil
  refine ⟨accepted,
    (remark_neutral_iff (t := computing) (a := "may be concurrent".toList) before after accepted (by decide)
    (by decide +kernel) (by cbv)).2 ⟨⟨"CS 1301", by cbv⟩, undivided_of_alternatives (by decide) (by cbv)⟩⟩

/-- A minimum grade is lost with a remark behind it. -/
theorem remark_takes_grade :
    ofProse "CS 1301 (min C)" = .ok (some (course "CS 1301" (some .c))) ∧
      minimum? "(may be concurrent)".toList = none ∧ Undivided "may be concurrent".toList ∧
      ofProse "CS 1301 (min C) (may be concurrent)" = .ok (some (course "CS 1301" none)) := by
  have plain : ofProse "CS 1301 (min C)" = .ok (some (course "CS 1301" (some .c))) :=
    (ofProse_eq_readClauses (by decide +kernel) (by decide +kernel) (by cbv)).trans (by cbv)
  have remarked : ofProse "CS 1301 (min C) (may be concurrent)" = .ok (some (course "CS 1301" none)) :=
    (ofProse_eq_readClauses (by decide +kernel) (by decide +kernel) (by cbv)).trans (by cbv)
  exact ⟨plain, by cbv, undivided_of_alternatives (by decide) (by cbv), remarked⟩

end DegreePlan.Requirement
