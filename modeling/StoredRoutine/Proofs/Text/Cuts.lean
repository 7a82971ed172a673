import StoredRoutine.Proofs.Text.Parts

/-!
# Where a text is cut

The searches of `Find`, read the other way round: what is known of a text in which a place was
found, or was not. A place that is found is one where a closed text can be cut
(`exists_of_findFrom`), and since it is the first one, nothing is found in what comes before it
(`findFrom_eq_none_of_append`). For keywords this takes some care, as a word may be a keyword only
because the text ends behind it: `Apart` says of two texts that no word goes on from the first into
the second.
-/

namespace StoredRoutine.Text

open Nesting

/-! ## Letters and word characters -/

theorem isWordChar_of_toLower {c : Char} (h : isWordChar c.toLower = true) :
    isWordChar c = true := by
  by_cases hupper : c.isUpper = true
  · have halpha : c.isAlphanum = (c.isUpper || c.isLower || c.isDigit) := rfl
    rw [isWordChar, halpha, hupper]
    rfl
  · -- what is no capital letter is its own small letter
    have hsame : c.toLower = c := dif_neg fun hbounds => hupper (decide_eq_true hbounds)
    rwa [hsame] at h

/-- A text that can be searched for as a word. -/
structure IsKeyword (word : List Char) : Prop where
  ne_nil : word ≠ []
  chars : ∀ c ∈ asciiLower word, isWordChar c = true

instance (word : List Char) : Decidable (IsKeyword word) :=
  decidable_of_iff (word ≠ [] ∧ (asciiLower word).all isWordChar = true)
    ⟨fun ⟨ne_nil, chars⟩ => ⟨ne_nil, by simpa using chars⟩,
      fun ⟨ne_nil, chars⟩ => ⟨ne_nil, by simpa using chars⟩⟩

/-- What is the same as a keyword is a word. -/
theorem IsKeyword.of_sameLetters {word s : List Char} (hword : IsKeyword word)
    (h : sameLetters word s = true) : ∀ c ∈ s, isWordChar c = true := by
  intro c hc
  rw [sameLetters_iff] at h
  have hchars := hword.chars
  rw [h] at hchars
  exact isWordChar_of_toLower (hchars _ (List.mem_map_of_mem hc))

/-- What the second text begins with does not go on with a word that the first one ends with. A
quoted identifier must not follow directly, either. -/
def Apart (s t : List Char) : Prop :=
  s.getLast?.any isWordChar = true → t.head?.any (fun c => isWordChar c || c == '"') = false

theorem Apart.of_getLast? {s : List Char} (h : s.getLast?.any isWordChar = false)
    (t : List Char) : Apart s t := by
  intro hs
  rw [h] at hs
  cases hs

theorem Apart.of_head? (s : List Char) {c : Char} {t : List Char}
    (hc : (isWordChar c || c == '"') = false) : Apart s (c :: t) := fun _ => hc

theorem Apart.of_suffix {s s' t : List Char} (h : Apart s t) (hs : s' <:+ s) (hne : s' ≠ []) :
    Apart s' t := by
  obtain ⟨a, rfl⟩ := hs
  intro hlast
  refine h ?_
  rw [List.getLast?_append, List.getLast?_eq_some_getLast hne, Option.some_or]
  rwa [List.getLast?_eq_some_getLast hne] at hlast

/-- A word at the front of a text is there, too, if something follows that stands apart. -/
theorem startsWithLetters_append {word s : List Char} (h : startsWithLetters word s = true)
    (t : List Char) : startsWithLetters word (s ++ t) = true := by
  rw [startsWithLetters_iff] at h ⊢
  refine h.trans ?_
  rw [asciiLower, asciiLower, List.map_append]
  exact List.prefix_append _ _

/-- What comes behind the word at the front of a text is no word character if it was none before
something was put behind the text. -/
theorem any_head?_drop_append {word s t : List Char} (h : startsWithLetters word s = true)
    (hword : IsKeyword word) (hapart : Apart s t) {p : Char → Bool} (hp : ∀ c, p c = true → (isWordChar c || c == '"') = true)
    (hnone : (s.drop word.length).head?.any p = false) :
    ((s ++ t).drop word.length).head?.any p = false := by
  have hlength := length_le_of_startsWithLetters h
  rw [List.drop_append_of_le_length hlength]
  cases hdrop : s.drop word.length with
  | cons c rest =>
    rw [hdrop] at hnone
    exact hnone
  | nil =>
    -- the text is the word, so it ends in a word character
    have htake : s.take word.length = s := List.take_of_length_le (List.drop_eq_nil_iff.mp hdrop)
    have hsame : sameLetters word s = true := by
      rw [startsWithLetters, htake] at h
      exact h
    have hs : s ≠ [] := by
      rintro rfl
      exact hword.ne_nil (List.eq_nil_of_length_eq_zero (Nat.le_zero.mp hlength))
    have hlast : s.getLast?.any isWordChar = true := by
      rw [List.getLast?_eq_some_getLast hs]
      exact hword.of_sameLetters hsame _ (List.getLast_mem hs)
    have hhead := hapart hlast
    rw [List.nil_append]
    cases t with
    | nil => rfl
    | cons c t =>
      refine Bool.eq_false_iff.mpr fun hc => ?_
      have hc' : (isWordChar c || c == '"') = false := hhead
      rw [hp c hc] at hc'
      cases hc'

theorem isWholeWord_append {word left s t} (h : isWholeWord word left s = true)
    (hword : IsKeyword word) (hapart : Apart s t) :
    isWholeWord word left (s ++ t) = true := by
  rw [isWholeWord, Bool.and_eq_true, Bool.and_eq_true, Bool.not_eq_true', Bool.not_eq_true'] at h ⊢
  obtain ⟨⟨hstarts, hleft⟩, hnone⟩ := h
  refine ⟨⟨startsWithLetters_append hstarts t, hleft⟩, ?_⟩
  exact any_head?_drop_append hstarts hword hapart (fun c hc => by simp [hc]) hnone

/-! ## Finding -/

section Find

variable {test : Option Char → List Char → Bool} {n : Nesting} {left : Option Char}
  {s t : List Char}

/-- What is found is a place of depth zero that passes the test. -/
theorem exists_of_findFrom {i : Nat} (h : findFrom test n left s = some i) :
    ∃ a c b, s = a ++ c :: b ∧ a.length = i ∧ (n.after a).depthAt? c = some 0 ∧
      test (a.getLast?.or left) (c :: b) = true := by
  induction s generalizing n left i with
  | nil => cases h
  | cons c s ih =>
    rw [findFrom] at h
    split_ifs at h with hfound
    · obtain rfl := Option.some.inj h
      exact ⟨[], c, s, rfl, rfl, hfound.1, hfound.2⟩
    · obtain ⟨j, hj, rfl⟩ := Option.map_eq_some_iff.mp h
      obtain ⟨a, e, b, rfl, rfl, hdepth, htest⟩ := ih hj
      refine ⟨c :: a, e, b, rfl, rfl, hdepth, ?_⟩
      rw [List.getLast?_cons]
      cases hlast : a.getLast? with
      | none =>
        rw [hlast] at htest
        exact htest
      | some d =>
        rw [hlast] at htest
        exact htest

/-- If there is a place of depth zero that passes the test, it or an earlier one is found. -/
theorem exists_findFrom_le {a b : List Char} {c : Char}
    (hdepth : (n.after a).depthAt? c = some 0) (htest : test (a.getLast?.or left) (c :: b) = true) :
    ∃ i ≤ a.length, findFrom test n left (a ++ c :: b) = some i := by
  induction a generalizing n left with
  | nil => exact ⟨0, Nat.le_refl 0, if_pos ⟨hdepth, htest⟩⟩
  | cons d a ih =>
    rw [List.cons_append, findFrom]
    split_ifs with hfound
    · exact ⟨0, Nat.zero_le _, rfl⟩
    · have hlast : (d :: a).getLast?.or left = a.getLast?.or (some d) := by
        rw [List.getLast?_cons]
        cases a.getLast? <;> rfl
      rw [hlast] at htest
      obtain ⟨i, hi, hfind⟩ := ih hdepth htest
      exact ⟨i + 1, Nat.succ_le_succ hi, congrArg (Option.map (· + 1)) hfind⟩

/-- **Nothing is found before the first place.** -/
theorem findFrom_eq_none_of_append
    (hstable : ∀ left rest, rest <:+ s → rest ≠ [] → test left rest = true →
      test left (rest ++ t) = true)
    (h : ∀ i ∈ findFrom test n left (s ++ t), s.length ≤ i) : findFrom test n left s = none := by
  cases hfind : findFrom test n left s with
  | none => rfl
  | some i =>
    obtain ⟨a, c, b, rfl, rfl, hdepth, htest⟩ := exists_of_findFrom hfind
    have htest' : test (a.getLast?.or left) (c :: (b ++ t)) = true :=
      hstable _ (c :: b) (List.suffix_append a _) (List.cons_ne_nil c b) htest
    obtain ⟨j, hj, hfind'⟩ := exists_findFrom_le hdepth htest'
    have hle := h j (by rw [List.append_assoc, List.cons_append, hfind']; rfl)
    rw [List.length_append, List.length_cons] at hle
    omega

end Find

theorem findSequence?_eq_none_of_append {sequence s t : List Char}
    (h : ∀ i ∈ findSequence? sequence (s ++ t), s.length ≤ i) :
    findSequence? sequence s = none := by
  unfold findSequence? at h ⊢
  split_ifs at h ⊢
  · rfl
  · refine findFrom_eq_none_of_append (t := t) ?_ h
    intro _ rest _ _ hprefix
    rw [List.isPrefixOf_iff_prefix] at hprefix ⊢
    exact hprefix.trans (List.prefix_append _ _)

theorem findKeyword?_eq_none_of_append {keyword s t : List Char} (hkeyword : IsKeyword keyword)
    (hapart : Apart s t) (h : ∀ i ∈ findKeyword? keyword (s ++ t), s.length ≤ i) :
    findKeyword? keyword s = none :=
  findFrom_eq_none_of_append
    (fun _ _ hsuffix hrest hwhole =>
      isWholeWord_append hwhole hkeyword (hapart.of_suffix hsuffix hrest)) h

/-- A sequence that is found begins where a closed text can be cut. -/
theorem exists_of_findSequence? {c : Char} {sequence s : List Char} {i : Nat} (hs : IsClosed s)
    (hc : c ≠ ')') (h : findSequence? (c :: sequence) s = some i) :
    ∃ a b, s = a ++ (c :: sequence ++ b) ∧ a.length = i ∧ IsClosed a := by
  obtain ⟨a, d, b, rfl, hi, hdepth, htest⟩ := exists_of_findFrom h
  obtain ⟨b', hb'⟩ := List.isPrefixOf_iff_prefix.mp htest
  obtain ⟨rfl, -⟩ := List.cons.inj hb'
  exact ⟨a, b', by rw [hb'], hi, isClosed_of_depthAt? hs.isBalanced hdepth hc⟩

/-- A keyword that is found begins where a closed text can be cut, and apart from it. -/
theorem exists_of_findKeyword? {keyword s : List Char} {i : Nat} (hs : IsClosed s)
    (hkeyword : IsKeyword keyword) (h : findKeyword? keyword s = some i) :
    ∃ a word b, s = a ++ (word ++ b) ∧ a.length = i ∧ word.length = keyword.length ∧
      IsClosed a ∧ (∀ c ∈ word, isWordChar c = true) ∧ Apart a (word ++ b) := by
  obtain ⟨a, c, b, rfl, hi, hdepth, htest⟩ := exists_of_findFrom h
  rw [isWholeWord, Bool.and_eq_true, Bool.and_eq_true, Bool.not_eq_true'] at htest
  obtain ⟨⟨hstarts, hleft⟩, -⟩ := htest
  have hlength := length_le_of_startsWithLetters hstarts
  have hword : ∀ d ∈ (c :: b).take keyword.length, isWordChar d = true :=
    hkeyword.of_sameLetters hstarts
  have hc : c ≠ ')' := by
    have hlength : keyword.length ≠ 0 := mt List.eq_nil_of_length_eq_zero hkeyword.ne_nil
    obtain ⟨k, hk⟩ := Nat.exists_eq_succ_of_ne_zero hlength
    rw [hk, List.take_succ_cons] at hword
    exact ne_of_isWordChar (hword c List.mem_cons_self) (by decide)
  refine ⟨a, (c :: b).take keyword.length, (c :: b).drop keyword.length, ?_, hi,
    List.length_take_of_le hlength, isClosed_of_depthAt? hs.isBalanced hdepth hc, hword, ?_⟩
  · rw [List.take_append_drop]
  · refine .of_getLast? ?_ _
    rw [Option.or_none] at hleft
    exact hleft

/-! ## Cutting off the front -/

/-- The first text is closed and stands in front of the second one, apart from what follows. -/
def IsFront (t s : List Char) : Prop := ∃ b, s = t ++ b ∧ IsClosed t ∧ Apart t b

theorem IsFront.refl {s : List Char} (h : IsClosed s) : IsFront s s :=
  ⟨[], (List.append_nil s).symm, h, fun _ => rfl⟩

theorem IsFront.isPart {s t : List Char} (h : IsFront t s) : IsPart t s := by
  obtain ⟨b, rfl, ht, -⟩ := h
  exact .left ht b

/-- **The front can be trimmed.** What is taken away at its end is a space, and that stands
apart. -/
theorem IsLoose.isFront_trim {s a : List Char} (hs : IsLoose s)
    (hhead : s.head?.any isBlank = false) (ha : IsFront a s) : IsFront (trim a) s := by
  obtain ⟨y, rfl, haclosed, hapart⟩ := ha
  have hahead : a.head?.any isBlank = false := by
    cases a with
    | nil => rfl
    | cons c a => exact hhead
  obtain ⟨blanks, ha, hblanks⟩ := exists_trimEnd_append a
  have htrim : trim a = trimEnd a := by rw [trim, trimStart_eq_self hahead]
  have hclosed := isClosed_trimEnd haclosed
  rw [htrim]
  refine ⟨blanks ++ y, by rw [← List.append_assoc, ← ha], hclosed, ?_⟩
  cases blanks with
  | nil =>
    rw [List.append_nil] at ha
    rwa [← ha]
  | cons c blanks =>
    have hc : isBlank c = true := hblanks c List.mem_cons_self
    have hloose := hs.loose
    rw [ha, List.append_assoc] at hloose
    have hspace := (of_everyOpen_cons (everyOpen_right hloose)).1
    -- the blank stands in the open, so it is a space
    have hdepth : (Nesting.start.after (trimEnd a)).depthAt? c = some 0 := by
      have hclose : c ≠ ')' := ne_of_isBlank hc (by decide)
      rw [hclosed]
      simp [depthAt?, Nesting.start, isQuote_of_isBlank hc, hclose]
    rw [hdepth] at hspace
    obtain rfl : c = ' ' := by
      have hlooseAt : isLooseAt c (blanks ++ y) = true := hspace
      rw [isLooseAt, if_pos hc, Bool.and_eq_true, beq_iff_eq] at hlooseAt
      exact hlooseAt.1
    exact .of_head? _ rfl

end StoredRoutine.Text
