import DegreePlan.Proofs.Requirement.Grouping
import DegreePlan.Proofs.Requirement.Shortest
import DegreePlan.Proofs.Requirement.Spacing

/-!
# Several of a list

A choice of several courses is spelled out into all ways to take that many of the list. The tree then counts: it is
met by as many courses of the list, opened by as many that are completed or planned, and misses as many as are lacking.
-/

namespace DegreePlan.Requirement

open DegreePlan.Text Prose

/-! ## Combinations -/

namespace Prose

variable {α : Type} {n : Nat} {l c : List α} {p : α → Bool}

/-- The combinations are the lists of that length that are had by leaving out the others. -/
theorem mem_combinations_iff : c ∈ combinations n l ↔ c.Sublist l ∧ c.length = n := by
  induction l generalizing n c with
  | nil =>
    cases n with
    | zero => simp [combinations]
    | succ n =>
      simp only [combinations, List.not_mem_nil, List.sublist_nil, false_iff, not_and]
      rintro rfl
      simp
  | cons a l ih =>
    cases n with
    | zero =>
      simp only [combinations, List.mem_singleton, List.length_eq_zero_iff, iff_and_self]
      rintro rfl
      exact List.nil_sublist _
    | succ n =>
      rw [combinations]
      split
      · next short =>
        simp only [List.not_mem_nil, false_iff, not_and]
        intro part length
        have := part.length_le
        simp only [List.length_cons] at this
        omega
      · simp only [List.mem_append, List.mem_map, ih, List.sublist_cons_iff]
        constructor
        · rintro (⟨c, ⟨part, rfl⟩, rfl⟩ | ⟨part, length⟩)
          · exact ⟨.inr ⟨c, rfl, part⟩, rfl⟩
          · exact ⟨.inl part, length⟩
        · rintro ⟨part | ⟨c, rfl, part⟩, length⟩
          · exact .inr ⟨part, length⟩
          · exact .inl ⟨c, ⟨part, by simpa using length⟩, rfl⟩

/-- Some combination passes a test throughout if and only if enough of the list pass it. -/
theorem exists_combination_iff : (∃ c ∈ combinations n l, ∀ x ∈ c, p x = true) ↔ n ≤ l.countP p := by
  simp only [mem_combinations_iff]
  constructor
  · rintro ⟨c, ⟨part, rfl⟩, passes⟩
    rw [← List.countP_eq_length.2 passes]
    exact part.countP_le
  · intro enough
    refine ⟨(l.filter p).take n, ⟨(List.take_sublist _ _).trans List.filter_sublist, ?_⟩, fun x hx => ?_⟩
    · rw [List.length_take, ← List.countP_eq_length_filter]
      omega
    · exact (List.mem_filter.1 (List.mem_of_mem_take hx)).2

/-- A list can be cut down without losing one that passes the test. -/
theorem exists_sublist_countP (enough : l.countP p ≤ n) (length : n ≤ l.length) :
    ∃ c : List α, c.Sublist l ∧ c.length = n ∧ c.countP p = l.countP p := by
  induction l generalizing n with
  | nil => exact ⟨[], .slnil, by simpa [eq_comm] using length, rfl⟩
  | cons a l ih =>
    by_cases whole : n = (a :: l).length
    · exact ⟨a :: l, .refl _, whole.symm, rfl⟩
    · simp only [List.length_cons] at length whole
      cases passes : p a with
      | true =>
        rw [List.countP_cons_of_pos passes] at enough ⊢
        obtain ⟨n, rfl⟩ : ∃ m, n = m + 1 := ⟨n - 1, by omega⟩
        obtain ⟨c, part, rfl, same⟩ := ih (n := n) (by omega) (by omega)
        exact ⟨a :: c, part.cons_cons a, rfl, by rw [List.countP_cons_of_pos passes, same]⟩
      | false =>
        rw [List.countP_cons_of_neg (by simp [passes])] at enough ⊢
        obtain ⟨c, part, length, same⟩ := ih enough (by omega)
        exact ⟨c, part.cons a, length, same⟩

end Prose

/-! ## Trees that count -/

/-- A leaf: the code of a course and its minimum grade. -/
abbrev Leaf : Type := String × Option Letter

/-- The leaf as a requirement. -/
def ofLeaf (leaf : Leaf) : Requirement := course leaf.1 leaf.2

/-- Any combination of `n` of the leaves. -/
def atLeast (n : Nat) (leaves : List Leaf) : Requirement := any ((combinations n (leaves.map ofLeaf)).map all)

section

variable {n : Nat} {leaves c : List Leaf} {completed : Completed} {planned : List String}

theorem holds_atLeast (leaf : String → Option Letter → Bool) :
    (atLeast n leaves).holds leaf = true ↔ n ≤ leaves.countP fun p => leaf p.1 p.2 := by
  have counted : (leaves.map ofLeaf).countP (·.holds leaf) = leaves.countP fun p => leaf p.1 p.2 := by
    rw [List.countP_map]
    rfl
  rw [← counted, ← exists_combination_iff]
  simp [atLeast]

/-- The leaves of a list that all count are missing unless they are completed or planned. -/
theorem length_missing_all (once : (c.map (·.1)).Nodup) :
    ((all (c.map ofLeaf)).evaluate completed planned).missing.length +
      c.countP (fun p => completed.ok planned p.1 p.2) = c.length := by
  have each (p : Leaf) :
      ((ofLeaf p).evaluate completed planned).missing = if completed.ok planned p.1 p.2 then [] else [p.1] := by
    rw [ofLeaf, evaluate, evaluateCourse, Completed.meets_eq, Completed.ok]
    cases completed.hard p.1 p.2 <;> cases planned.contains p.1 <;> rfl
  have listed : (c.map ofLeaf).flatMap (fun r => (r.evaluate completed planned).missing) =
      (c.filter fun p => !completed.ok planned p.1 p.2).map (·.1) := by
    rw [List.flatMap_map]
    induction c with
    | nil => rfl
    | cons p c ih =>
      rw [List.flatMap_cons, each, ih (List.nodup_cons.1 once).2]
      cases h : completed.ok planned p.1 p.2 <;> simp [h]
  have distinct : (((c.filter fun p => !completed.ok planned p.1 p.2)).map (·.1)).Nodup :=
    once.sublist (List.filter_sublist.map _)
  rw [evaluate_all, Verdict.all]
  simp only [List.flatMap_map] at listed ⊢
  rw [listed, Course.distinct_of_nodup distinct, List.length_map, ← List.countP_eq_length_filter,
    List.length_eq_countP_add_countP (fun p => completed.ok planned p.1 p.2) (l := c), Nat.add_comm]
  simp

/-- A combination is a part of the list, and misses what is neither completed nor planned of it. -/
theorem length_missing_combination (once : (leaves.map (·.1)).Nodup) {c : List Requirement}
    (hc : c ∈ combinations n (leaves.map ofLeaf)) : ∃ c' : List Leaf, c'.Sublist leaves ∧
      ((all c).evaluate completed planned).missing.length + c'.countP (fun p => completed.ok planned p.1 p.2) = n := by
  obtain ⟨mapped, rfl⟩ := mem_combinations_iff.1 hc
  obtain ⟨c', part, rfl⟩ := List.sublist_map_iff.1 mapped
  exact ⟨c', part, by rw [length_missing_all (once.sublist (part.map _)), List.length_map]⟩

/-- As many courses are missing as are lacking. -/
theorem length_missing_atLeast (built : (atLeast n leaves).Built) (once : (leaves.map (·.1)).Nodup) :
    ((atLeast n leaves).evaluate completed planned).missing.length =
    n - leaves.countP fun p => completed.ok planned p.1 p.2 := by
  have decides := (built.decides completed planned).missing
  rw [holds_atLeast] at decides
  by_cases enough : n ≤ leaves.countP fun p => completed.ok planned p.1 p.2
  · rw [decides.2 enough, Nat.sub_eq_zero_of_le enough, List.length_nil]
  · have some : ((combinations n (leaves.map ofLeaf)).map all).map (evaluate completed planned) ≠ [] := by
      simpa using (built_any.1 built).1
    have size : n ≤ leaves.length := by
      obtain ⟨c, hc⟩ :=
        List.exists_mem_of_ne_nil _ (by simpa using some : combinations n (leaves.map ofLeaf) ≠ [])
      obtain ⟨part, rfl⟩ := mem_combinations_iff.1 hc
      simpa using part.length_le
    refine Nat.le_antisymm ?_ ?_
    · obtain ⟨c, part, length, same⟩ :=
        exists_sublist_countP (p := fun p : Leaf => completed.ok planned p.1 p.2) (by omega) size
      have listed : c.map ofLeaf ∈ combinations n (leaves.map ofLeaf) :=
        mem_combinations_iff.2 ⟨part.map _, by simpa using length⟩
      have distinct : (c.map (·.1)).Nodup := once.sublist (part.map _)
      have missing : ((all (c.map ofLeaf)).evaluate completed planned).missing.length + _ = _ :=
        length_missing_all distinct
      have among := List.mem_map_of_mem (f := evaluate completed planned) (List.mem_map_of_mem (f := all) listed)
      have least := Verdict.length_missing_any_le among
      rw [atLeast, evaluate_any]
      omega
    · have blocked : ((atLeast n leaves).evaluate completed planned).missing ≠ [] :=
        fun none => enough (decides.1 none)
      rw [atLeast, evaluate_any] at blocked ⊢
      rcases Verdict.any_cases some with ⟨-, satisfied⟩ | ⟨-, taken, -⟩
      · exact absurd (by rw [satisfied]) blocked
      · simp only [List.map_map, List.mem_map, Function.comp] at taken
        obtain ⟨c, hc, taken⟩ := taken
        obtain ⟨c', part, missing⟩ : ∃ c' : List Leaf, c'.Sublist leaves ∧
            ((all c).evaluate completed planned).missing.length + _ = n := length_missing_combination once hc
        have fewer := part.countP_le (p := fun p : Leaf => completed.ok planned p.1 p.2)
        rw [List.map_map, ← show _ = _ from taken]
        omega

end

/-! ## The text of a choice -/

namespace Prose

/-- A count and the number that it stands for: digits, or one of the words in any case. -/
inductive Counts : List Char → Nat → Prop where
  | digits {count : List Char} (shown : count ≠ []) (digits : ∀ c ∈ count, isDigit c = true) :
      Counts count (digitsToNat count)
  | word {count : List Char} {word : String × Nat} (listed : word ∈ countWords)
    (spelled : Alike count word.1.toList) : Counts count word.2

/-- Every number can be written down. -/
theorem counts_decimal (n : Nat) : Counts (toString n).toList n := by
  have text : (toString n).toList = Nat.toDigits 10 n := Nat.toList_repr
  have digit : ∀ c ∈ Nat.toDigits 10 n, c.isDigit = true :=
    fun c => Nat.isDigit_of_mem_toDigits (by omega) (by omega)
  have value : digitsToNat (Nat.toDigits 10 n) = n := by
    conv_rhs => rw [← Nat.ofDigitChars_toDigits (b := 10) (n := n) (by omega) (by omega)]
    refine List.foldl_ext _ _ 0 fun m c hc => ?_
    have bounds := Course.ascii_digit_bounds (digit c hc)
    have ascii : c.toNat < 0x80 := by omega
    simp [digitValue?, ascii, bounds]
  have counts := Counts.digits Nat.toDigits_ne_nil fun c hc => Course.isDigit_of_ascii (digit c hc)
  rwa [value, ← text] at counts

variable {count b : List Char} {n : Nat}

/-- The count words are in lower case, begin with another letter than the word for any does, and no word begins with
another. -/
theorem countWords_spelled : ∀ word ∈ countWords, word.1.toList.map Char.toLower = word.1.toList ∧
    (∃ l ls, word.1.toList = l :: ls ∧ l ≠ 'a') ∧ (∀ c ∈ word.1.toList, c.isAlpha = true) ∧
    ∀ word' ∈ countWords, word'.1.toList <+: word.1.toList → word' = word := by
  simp [countWords]

theorem countWord_fold {word : String × Nat} (listed : word ∈ countWords) (spelled : Alike count word.1.toList) :
    count.map foldLetter = word.1.toList := by
  obtain ⟨lower, -, alpha, -⟩ := countWords_spelled word listed
  rw [spelled.fold fun d hd => by have := isAlpha_iff.1 (alpha d hd); omega, lower]

theorem countWord_front {word : String × Nat} (listed : word ∈ countWords)
    (fold : count.map foldLetter = word.1.toList) :
    ∃ c rest, count = c :: rest ∧ (foldLetter c).isAlpha = true ∧ foldLetter c ≠ 'a' := by
  obtain ⟨-, ⟨l, ls, text, other⟩, alpha, -⟩ := countWords_spelled word listed
  rw [text] at fold
  obtain ⟨c, rest, rfl, hc, -⟩ := List.map_eq_cons_iff.1 fold
  exact ⟨c, rest, rfl, by rw [hc]; exact alpha l (by simp [text]), by rw [hc]; exact other⟩

/-- A count begins with a sign that is not blank and not the first letter of the word for any. -/
theorem Counts.front (counts : Counts count n) :
    ∃ c rest, count = c :: rest ∧ isBlank c = false ∧ foldLetter c ≠ 'a' := by
  cases counts with
  | digits shown digits =>
    obtain ⟨c, rest, rfl⟩ := List.exists_cons_of_ne_nil shown
    have digit := digits c (by simp)
    refine ⟨c, rest, rfl, isBlank_of_isDigit digit, fun letter => ?_⟩
    have := Course.isAlpha_foldLetter_of_isDigit digit
    rw [letter] at this
    exact absurd this (by decide)
  | @word word listed spelled =>
    obtain ⟨c, rest, rfl, alpha, other⟩ := countWord_front listed (countWord_fold listed spelled)
    exact ⟨c, rest, rfl, isBlank_of_isAlpha_foldLetter alpha, other⟩

/-- No other word stands in front of a text that begins with a count word. -/
theorem countWord_unique {word word' : String × Nat} {rest : List Char} (listed : word ∈ countWords)
    (fold : count.map foldLetter = word.1.toList) (listed' : word' ∈ countWords)
    (found : afterWord? word'.1.toList (count ++ ' ' :: b) = some rest) : word' = word := by
  obtain ⟨w, same, hw⟩ := afterWord?_eq_some.1 found
  refine (countWords_spelled word listed).2.2.2 word' listed' ?_
  rcases List.append_eq_append_iff.1 same with ⟨as, rfl, behind⟩ | ⟨bs, rfl, -⟩
  · cases as with
    | nil => rw [← hw, List.append_nil, fold]
    | cons x as =>
      obtain ⟨rfl, -⟩ := List.cons.inj behind
      have alpha := (countWords_spelled word' listed').2.2.1 (foldLetter ' ') (by rw [← hw]; simp)
      exact absurd alpha (by decide)
  · rw [← hw, ← fold, List.map_append]
    exact List.prefix_append _ _

/-- The count is split off whole. -/
theorem Counts.splitCount? (counts : Counts count n) (b : List Char) :
    splitCount? (count ++ ' ' :: b) = some (count, ' ' :: b) := by
  cases counts with
  | digits shown digits =>
    have stop : isDigit ' ' = false := by decide
    have taken : (count ++ ' ' :: b).takeWhile isDigit = count := by
      rw [List.takeWhile_append_of_pos digits]
      simp [stop]
    simp only [Prose.splitCount?, taken, List.isEmpty_eq_false_iff.2 shown, Bool.not_false, if_true,
      List.dropWhile_append_of_pos digits,
      dropWhile_of_head (show ∀ c ∈ (' ' :: b).head?, isDigit c = false by simpa using stop)]
  | @word word listed spelled =>
    have fold := countWord_fold listed spelled
    have counted : ((count ++ ' ' :: b).takeWhile isDigit).isEmpty = true := by
      obtain ⟨c, rest, rfl, alpha, -⟩ := countWord_front listed fold
      simp [(letter_plain alpha).2]
    simp only [Prose.splitCount?, counted, Bool.not_true, Bool.false_eq_true, if_false]
    obtain ⟨before, after, split, new⟩ := List.eq_append_cons_of_mem listed
    refine List.findSome?_eq_some_iff.2 ⟨before, word, after, split, ?_, fun word' hw => ?_⟩
    · rw [afterWord?_append fold]
      simp
    · rw [Option.map_eq_none_iff, ← Option.not_isSome_iff_eq_none, Option.isSome_iff_exists]
      rintro ⟨rest, found⟩
      obtain rfl := countWord_unique listed fold (by rw [split]; simp [hw]) found
      exact new hw

/-- The value of a count, if it has one, is its number. -/
theorem Counts.value (counts : Counts count n) {value : Option Nat} (h : countValue count = .ok value) :
    value = some n := by
  cases counts with
  | digits shown digits =>
    have all : (!count.isEmpty && count.all isDigit) = true := by simpa [shown] using digits
    rw [countValue] at h
    simp only [all, if_true, Number.readInteger_digits shown digits] at h
    split at h
    · next read =>
      split at read
      · cases read
      · obtain rfl := Number.IntegerReading.value.inj read
        exact (Except.ok.inj h).symm
    · cases h
    · cases h
  | @word word listed spelled =>
    obtain ⟨lower, -, alpha, -⟩ := countWords_spelled word listed
    have ascii : ∀ c ∈ count, c.toNat < 0x80 := (spelled.forall fun _ => toLower_toNat_lt).2 fun d hd => by
      have := isAlpha_iff.1 (alpha d hd)
      omega
    have counted : (!count.isEmpty && count.all isDigit) = false := by
      obtain ⟨c, rest, rfl, alpha, -⟩ := countWord_front listed (countWord_fold listed spelled)
      simp [(letter_plain alpha).2]
    have found : ∀ word ∈ countWords, countWords.lookup word.1 = some word.2 := by decide
    rw [countValue] at h
    simp only [counted, Bool.false_eq_true, if_false, lower_ascii ascii] at h
    rw [spelled, lower, String.ofList_toList, found word listed] at h
    exact (Except.ok.inj h).symm

/-- What stands behind a count and the words for courses is the list to choose from. -/
theorem choice?_of_counts (counts : Counts count n) {rest listed : List Char}
    (behind : (if hasContent rest then rest.dropWhile isBlank else ':' :: rest) = listed)
    (shown : listed ≠ []) (line : '\n' ∉ listed) :
    choice? (count ++ (" courses from:".toList ++ rest)) = some ⟨count, listed⟩ := by
  have text : count ++ (" courses from:".toList ++ rest) = count ++ ' ' :: ("courses from:".toList ++ rest) := by simp
  have any : afterWord? "any".toList (count ++ ' ' :: ("courses from:".toList ++ rest)) = none := by
    obtain ⟨c, more, rfl, -, other⟩ := counts.front
    have : (foldLetter c == 'a') = false := by simpa using other
    simp [afterWord?, this]
  have gap : afterBlanks? (' ' :: ("courses from:".toList ++ rest)) =
    some ("course".toList ++ ("s from:".toList ++ rest)) :=
    afterBlanks?_space (by simp; decide)
  have course : afterWord? "course".toList ("course".toList ++ ("s from:".toList ++ rest)) =
    some (['s'] ++ (" from:".toList ++ rest)) :=
    afterWord?_append (by decide)
  have plural : afterWord? ['s'] (['s'] ++ (" from:".toList ++ rest)) = some (" from:".toList ++ rest) :=
    afterWord?_append (by decide)
  have gap' : afterBlanks? (" from:".toList ++ rest) = some ("from".toList ++ ':' :: rest) :=
    afterBlanks?_space (by simp; decide)
  have from_ : afterWord? "from".toList ("from".toList ++ ':' :: rest) = some (':' :: rest) :=
    afterWord?_append (by decide)
  have colon : (':' :: rest).dropWhile isBlank = ':' :: rest := dropWhile_of_head (by simp; decide)
  have filled : (listed.isEmpty || listed.contains '\n') = false := by simpa [shown] using line
  simp only [choice?, text, any, Option.bind_none, Option.getD_none, counts.splitCount?, Option.bind_eq_bind,
    Option.bind_some, gap, course, plural, Option.getD_some, gap', from_, colon, behind, filled,
    Bool.false_eq_true, if_false]

/-- The text that asks for several courses of a list. -/
def choiceText (count : List Char) (items : List Item) : List Char :=
  count ++ (" courses from: ".toList ++ options items)

variable {e : Item} {items : List Item} {cell : Option Requirement} {r : Requirement}

theorem Item.no_newline (e : Item) : '\n' ∉ e.text := by
  have word {w : List Char} (h : Word w) : '\n' ∉ w := fun hc => absurd (h.plain _ hc).1 (by decide)
  have department : '\n' ∉ e.department := fun hc => absurd (e.named.letters _ hc) (by decide)
  have words : '\n' ∉ spaced e.words := by
    simp only [spaced, List.mem_flatMap, List.mem_cons, not_exists, not_and, not_or]
    exact fun w hw => ⟨by decide, word (e.ending.words w hw)⟩
  simpa [Item.text, department, word (word_number e.named)] using words

theorem options_no_newline (e : Item) (items : List Item) : '\n' ∉ options (e :: items) :=
  intercalate_induction (P := ('\n' ∉ ·)) (fun a b ha hb => by simpa using ⟨ha, hb⟩) (by simp)
    (by simpa using ⟨e.no_newline, fun e _ => e.no_newline⟩)

theorem ends_options (e : Item) (items : List Item) :
    ∃ c ∈ (options (e :: items)).getLast?, isBlank c = false ∧ c ≠ '.' := by
  refine intercalate_induction (P := fun cs => ∃ c ∈ cs.getLast?, isBlank c = false ∧ c ≠ '.')
    (fun a b _ hb => ?_) (by simp) (by simpa using ⟨e.parts.back, fun e _ => e.parts.back⟩)
  exact last_append_of_some hb _

theorem trimToken_options (e : Item) (items : List Item) : trimToken (options (e :: items)) = options (e :: items) := by
  obtain ⟨c, hc, plain⟩ := starts_options e items []
  have front : ∀ d ∈ (options (e :: items)).head?, isBlank d = false := fun d hd => by
    rw [List.append_nil] at hc
    exact Option.mem_unique hc hd ▸ plain
  simpa using trimToken_around front (ends_options e items) blank_nil stops_nil blank_nil

/-- A cell that is a choice means what the choice means. -/
theorem ofProse_of_choice {cs w : List Char} {choice : Choice} (trimmed : trim cs = w) (colon : ':' ∈ w)
    (found : choice? w = some choice) (accepted : ofProse (String.ofList cs) = .ok cell) :
    ∃ r, readChoice w choice = .ok r ∧ cell = some r := by
  have needed : nothing.contains (lower (String.ofList w)) = false :=
    not_nothing_of_mem colon (lowerChar_of_not_isAlpha (by decide) (by decide)) (by decide) (by simp [nothing])
  simp only [ofProse, String.toList_ofList, trimmed, needed, Bool.false_eq_true, if_false, found] at accepted
  split at accepted
  · cases accepted
  · obtain ⟨r, read, made⟩ := bind_eq_ok.1 accepted
    exact ⟨r, read, (pure_eq_ok.1 made).symm⟩

/-- A choice among items stands for the tree that counts them. -/
theorem renders_atLeast (counts : Counts count n) {text : List Char}
    (read : readChoice text ⟨count, options (e :: items)⟩ = .ok r) :
    (atLeast n ((e :: items).map fun e => (e.code, e.least))).Renders r := by
  obtain ⟨full, whole, renders⟩ := choiceInFull_of_readChoice read
  have courses : ((alternatives true (options (e :: items))).filter hasContent).mapM readCourse =
      .ok ((e :: items).map Item.leaf) := by
    have read : ((alternatives true ([] ++ (options (e :: items) ++ []))).filter hasContent).mapM readCourse = .ok _ :=
      mapM_options blank_nil (fun _ => rfl) blank_nil
    simpa using read
  obtain ⟨value, counted, whole⟩ := bind_eq_ok.1 whole
  obtain rfl := counts.value counted
  rw [trimToken_options, courses, ok_bind, Option.getD_some] at whole
  obtain ⟨groups, joined, whole⟩ := bind_eq_ok.1 whole
  have each : (combinations n ((e :: items).map Item.leaf)).map all = groups.map id :=
    map_eq_of_forall₂ (mapM_eq_ok.1 joined) fun parts p made => (join_eq_ok_iff.1 made).2
  have leaves : ((e :: items).map fun e => (e.code, e.least)).map ofLeaf = (e :: items).map Item.leaf := by
    rw [List.map_map]
    rfl
  obtain ⟨-, rfl⟩ := join_eq_ok_iff.1 whole
  rw [atLeast, leaves, each, List.map_id]
  exact renders

/-- A list with nothing in it is refused. -/
theorem readChoice_colon {text : List Char} : readChoice text ⟨count, [':']⟩ ≠ .ok r := by
  intro read
  have colon : trimToken [':'] = [':'] := by decide
  have pieces : (alternatives true [':']).filter hasContent = [[':']] := by
    have cut : alternatives true [':'] = attach [':'] (alternatives true []) :=
      alternatives_plain (w := [':']) (b := []) (by simp; decide)
    rw [cut, alternatives_nil]
    decide
  obtain ⟨value, -, read⟩ := bind_eq_ok.1 read
  obtain ⟨courses, listed, -⟩ := bind_eq_ok.1 read
  rw [show (⟨count, [':']⟩ : Choice).options = [':'] from rfl, colon, pieces, List.mapM_cons] at listed
  obtain ⟨leaf, course, -⟩ := bind_eq_ok.1 listed
  exact absurd (readCourse_front (by decide) (by decide) course) (by decide)

/-- A text that asks for a choice is read as the tree that counts the list. -/
theorem renders_of_ofProse (counts : Counts count n)
    (accepted : ofProse (String.ofList (choiceText count items)) = .ok cell) :
    ∃ tree, cell = some tree ∧ (atLeast n (items.map fun e => (e.code, e.least))).Renders tree := by
  obtain ⟨c, more, text, shown, -⟩ := counts.front
  have starts (rest : List Char) : ∃ c ∈ (count ++ rest).head?, isBlank c = false :=
    ⟨c, by rw [text]; rfl, shown⟩
  cases items with
  | nil =>
    have trimmed : trim (choiceText count []) = count ++ (" courses from:".toList ++ []) := by
      have split : choiceText count [] = [] ++ ((count ++ " courses from:".toList) ++ [' ']) := by
        simp [choiceText, options]
      rw [split, trim_within blank_nil (starts _) ⟨':', by simp, by decide⟩ blank_space, List.append_nil]
    have found : choice? (count ++ (" courses from:".toList ++ [])) = some ⟨count, [':']⟩ :=
      choice?_of_counts counts rfl (by simp) (by decide)
    obtain ⟨r, read, -⟩ := ofProse_of_choice trimmed (by simp) found accepted
    exact absurd read readChoice_colon
  | cons e items =>
    have trimmed : trim (choiceText count (e :: items)) =
        count ++ (" courses from:".toList ++ ' ' :: options (e :: items)) := by
      obtain ⟨d, hd, plain, -⟩ := ends_options e items
      have last : ∃ d ∈ (count ++ (" courses from: ".toList ++ options (e :: items))).getLast?, isBlank d = false :=
        last_append_of_some (last_append_of_some ⟨d, hd, plain⟩ _) _
      simpa [choiceText] using trim_within blank_nil (starts _) last blank_nil
    obtain ⟨d, hd, plain⟩ := starts_options e items []
    rw [List.append_nil] at hd
    have listed : (if hasContent (' ' :: options (e :: items)) then (' ' :: options (e :: items)).dropWhile isBlank
        else ':' :: ' ' :: options (e :: items)) = options (e :: items) := by
      have content : hasContent (' ' :: options (e :: items)) = true :=
        hasContent_of_mem (by simp [List.mem_of_mem_head? hd]) plain
      rw [if_pos content, dropWhile_space fun x hx => Option.mem_unique hd hx ▸ plain]
    have found :=
      choice?_of_counts counts listed (by rintro none; rw [none] at hd; cases hd) (options_no_newline e items)
    obtain ⟨r, read, rfl⟩ := ofProse_of_choice trimmed (by simp) found accepted
    exact ⟨r, rfl, renders_atLeast counts read⟩

end Prose

/-- A text that asks for `n` courses of a list of different courses, if it is accepted, means at least `n` of them. -/
theorem choice_means_at_least {count : List Char} {n : Nat} {items : List Item} {cell : Option Requirement}
    (counts : Counts count n) (once : (items.map Item.code).Nodup)
    (accepted : ofProse (String.ofList (choiceText count items)) = .ok cell) :
    ∃ tree, cell = some tree ∧ ∀ completed planned,
      let v := tree.evaluate completed planned
      let near := items.countP fun e => completed.ok planned e.code e.least
      (v.satisfied = true ↔ n ≤ items.countP fun e => completed.hard e.code e.least) ∧
        (v.isBlocked = false ↔ n ≤ near) ∧ (v.isBlocked = true → v.missing.length = n - near) := by
  obtain ⟨tree, rfl, renders⟩ := renders_of_ofProse counts accepted
  refine ⟨tree, rfl, fun completed planned => ?_⟩
  have built := renders.tidy.built
  have counted (leaf : String → Option Letter → Bool) :
      ((items.map fun e => (e.code, e.least)).countP fun p => leaf p.1 p.2) =
      items.countP fun e => leaf e.code e.least := by
    rw [List.countP_map]
    rfl
  have satisfied := (built.decides completed planned).satisfied
  have distinct : ((items.map fun e => (e.code, e.least)).map (·.1)).Nodup := by
    rw [List.map_map]
    exact once
  have length : ((atLeast n _).evaluate completed planned).missing.length = _ := length_missing_atLeast built distinct
  rw [renders.same] at satisfied length
  rw [counted] at length
  have blocked : (tree.evaluate completed planned).isBlocked = false ↔
      (tree.evaluate completed planned).missing.length = 0 := by
    simp [Verdict.isBlocked]
  refine ⟨?_, ?_, fun _ => length⟩
  · rw [satisfied, holds_atLeast, counted]
  · rw [blocked, length]
    omega

/-- Three courses, one with a minimum grade. -/
def electives : List Item :=
  [⟨"CS".toList, "3510".toList, [], none, ⟨by simp, by decide, by decide⟩, .plain⟩,
    ⟨"CS".toList, "2050".toList, ["(min".toList, "C)".toList], some .c, ⟨by simp, by decide, by decide⟩,
      .bracketed (m := "min".toList) (x := 'C') (by decide) rfl⟩,
    ⟨"MATH".toList, "3012".toList, [], none, ⟨by simp, by decide, by decide⟩, .plain⟩]

/-- The tree of two of the three. -/
def twoElectives : Requirement :=
  .any [.all [course "CS 3510" none, course "CS 2050" (some .c)], .all [course "CS 3510" none, course "MATH 3012" none],
    .all [course "CS 2050" (some .c), course "MATH 3012" none]]

/-- With a D on record for the course with the minimum grade, two of three are open to a plan and one is met. -/
theorem choice_means_at_least_two :
    let completed : Completed := .graded [("CS 3510", none), ("CS 2050", some (.letter .d))]
    let v := twoElectives.evaluate completed []
    ofProse "2 courses from: CS 3510 or CS 2050 (min C) or MATH 3012" = .ok (some twoElectives) ∧
      v.satisfied = false ∧ v.isBlocked = true ∧ v.missing.length = 1 ∧
        (twoElectives.evaluate completed ["MATH 3012"]).isBlocked = false := by
  intro completed v
  have read : ofProse "2 courses from: CS 3510 or CS 2050 (min C) or MATH 3012" = .ok (some twoElectives) := by
    have needed : nothing.contains (lower (String.ofList
        (trim "2 courses from: CS 3510 or CS 2050 (min C) or MATH 3012".toList))) = false := by decide +kernel
    have quiet : (unsupportedWords.any fun word => hasInfix word.toList (lower (String.ofList
        (trim "2 courses from: CS 3510 or CS 2050 (min C) or MATH 3012".toList))).toList) = false := by decide +kernel
    simp only [ofProse, needed, quiet, Bool.false_eq_true, if_false]
    cbv
  have text : String.ofList (choiceText (toString 2).toList electives) =
      "2 courses from: CS 3510 or CS 2050 (min C) or MATH 3012" := by
    decide +kernel
  obtain ⟨tree, same, counts⟩ := choice_means_at_least (counts_decimal 2) (by decide +kernel) (text ▸ read)
  obtain rfl := Option.some.inj same
  obtain ⟨satisfied, blocked, missing⟩ := counts completed []
  have lacking : v.isBlocked = true := by
    rw [← Bool.not_eq_false]
    exact fun near => absurd (blocked.1 near) (by decide +kernel)
  refine ⟨read, ?_, lacking, (missing lacking).trans (by decide +kernel),
    (counts completed ["MATH 3012"]).2.1.2 (by decide +kernel)⟩
  rw [← Bool.not_eq_true]
  exact fun met => absurd (satisfied.1 met) (by decide +kernel)

end DegreePlan.Requirement
