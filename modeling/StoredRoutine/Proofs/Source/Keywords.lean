import Mathlib.Data.List.TakeWhile
import StoredRoutine.Proofs.Declaration.Defects
import StoredRoutine.Proofs.Source.Spans
import StoredRoutine.Proofs.Text.Letters

/-!
# The keyword of a declaration

A declaration is recognized twice: the scanner looks for its keyword among the words of a statement,
and the reader takes it off the front of the fragment. They differ in what may follow the keyword. A
quote begins another word, so the scanner finds `function` in front of a quoted name, but the reader
takes no keyword that a quoted identifier follows directly (`takeKeyword?_eq_none_iff`).

For a routine that is the only difference. For a constant there are others. The scanner takes any word
for its name, and the reader none that begins with a digit or has nothing between its quotes; a quote
that is doubled inside of a name ends it for the reader; and between the name and the keyword the
scanner passes over whatever is no word, and the reader over blanks only. Where they differ is said
for every fragment (`failsWith_keyword_iff`).
-/

namespace StoredRoutine

open Text

namespace Text

/-! ## Trimming -/

/-- A text that is trimmed stays as it is in front of another one. -/
theorem trimEnd_append {s : List Char} (hlast : s.getLast?.any isBlank = false)
    (t : List Char) : trimEnd (s ++ t) = s ++ trimEnd t := by
  obtain ⟨blanks, ht, hblanks⟩ := exists_trimEnd_append t
  have hkept : trimEnd (s ++ trimEnd t) = s ++ trimEnd t := by
    refine trimEnd_eq_self ?_
    cases htrim : trimEnd t with
    | nil => rwa [List.append_nil]
    | cons c rest =>
      rw [List.getLast?_append_of_ne_nil _ (List.cons_ne_nil c rest), ← htrim]
      exact getLast?_trimEnd t
  have hparts : s ++ t = s ++ trimEnd t ++ blanks := by
    rw [List.append_assoc, ← ht]
  rw [hparts, trimEnd_append_of_blank hblanks, hkept]

theorem trim_append {s : List Char} (hne : s ≠ []) (hs : IsTrimmed s) (t : List Char) :
    trim (s ++ t) = s ++ trimEnd t := by
  rw [trim, hs.trimStart_append hne, trimEnd_append hs.last]

theorem trimEnd_isPrefix (s : List Char) : trimEnd s <+: s := by
  obtain ⟨blanks, hs, -⟩ := exists_trimEnd_append s
  exact ⟨blanks, hs.symm⟩

/-! ## Words -/

/-- Blanks are told from other characters whatever the letters. -/
theorem IsTrimmed.of_sameLetters {s t : List Char} (hs : IsTrimmed s)
    (h : sameLetters t s = true) : IsTrimmed t := by
  have hlast : ∀ u : List Char, (asciiLower u).getLast?.any isBlank = u.getLast?.any isBlank := by
    intro u
    rw [asciiLower, List.getLast?_map, Option.any_map]
    simp only [isBlank_toLower]
  rw [sameLetters_iff] at h
  constructor
  · rw [← any_head?_asciiLower isBlank_toLower, h, any_head?_asciiLower isBlank_toLower]
    exact hs.head
  · rw [← hlast, h, hlast]
    exact hs.last

/-- A keyword is no quoted identifier. -/
theorem ReadsWord.of_sameLetters {s word rest keyword : List Char} (h : ReadsWord s word rest)
    (hkeyword : IsKeyword keyword) (hword : sameLetters word keyword = true) :
    (∀ c ∈ word, isWordChar c = true) ∧ rest.head?.any isWordChar = false := by
  cases h with
  | run hne hchars hrest => exact ⟨hchars, hrest⟩
  | quoted s =>
    rw [sameLetters_comm] at hword
    have hquote := hkeyword.of_sameLetters hword '"' List.mem_cons_self
    cases hquote

/-- **There is no name in the word**: it begins with a digit, or with two quotes. -/
def LacksName (word : List Char) : Prop :=
  word.head?.any Char.isDigit = true ∨ ['"', '"'] <+: word

/-- There is a quote between the first and the last character of the word. -/
def HoldsQuote (word : List Char) : Prop := '"' ∈ word.tail.dropLast

instance (word : List Char) : Decidable (LacksName word) := inferInstanceAs (Decidable (_ ∨ _))

instance (word : List Char) : Decidable (HoldsQuote word) := inferInstanceAs (Decidable (_ ∈ _))

/-- **A quoted section that is closed** up to the first quote in it. What is left has another quote
in front. -/
theorem exists_of_drop_quotedLength {s : List Char} (h : s.drop (quotedLength '"' s) ≠ []) :
    ∃ name left, s.take (quotedLength '"' s) = name ++ '"' :: left ∧ '"' ∉ name ∧
      (left ≠ [] → left.head? = some '"') := by
  fun_induction quotedLength '"' s with
  | case1 => exact absurd rfl h
  | case2 c => exact absurd rfl h
  | case3 c d rest hc ih =>
    rw [Nat.add_comm, List.drop_succ_cons] at h
    obtain ⟨name, left, htake, hname, hleft⟩ := ih h
    refine ⟨c :: name, left, ?_, ?_, hleft⟩
    · rw [Nat.add_comm, List.take_succ_cons, htake, List.cons_append]
    · exact List.not_mem_cons_of_ne_of_not_mem (Ne.symm hc) hname
  | case4 c rest hc ih =>
    obtain rfl := Decidable.of_not_not hc
    refine ⟨[], '"' :: rest.take (quotedLength '"' rest), ?_, List.not_mem_nil, fun _ => rfl⟩
    rw [Nat.add_comm, List.take_succ_cons, List.take_succ_cons]
    rfl
  | case5 c d rest hc hd =>
    obtain rfl := Decidable.of_not_not hc
    exact ⟨[], [], rfl, List.not_mem_nil, fun hne => absurd rfl hne⟩

/-- A word that something follows has a quote at either end, or none at all. -/
theorem ReadsWord.ends {s word rest : List Char} (h : ReadsWord s word rest) (hrest : rest ≠ []) :
    (∀ c ∈ word, isWordChar c = true) ∨ word.head? = some '"' ∧ word.getLast? = some '"' := by
  cases h with
  | run _ hword _ => exact .inl hword
  | quoted s =>
    obtain ⟨hcloses, -⟩ := closesQuote_of_drop_ne_nil rfl hrest
    exact .inr ⟨rfl, by rw [List.getLast?_cons, hcloses.last]; rfl⟩

/-- **The first word of a text**, between what stands in front of it and what stands behind it. -/
structure FirstWord (s gap word rest : List Char) : Prop where
  parts : s = gap ++ (word ++ rest)
  first : (words s).head? = some (gap.length, word)

theorem FirstWord.unique {s gap word rest gap' word' rest' : List Char}
    (h : FirstWord s gap word rest) (h' : FirstWord s gap' word' rest') :
    gap' = gap ∧ word' = word ∧ rest' = rest := by
  obtain ⟨hlength, rfl⟩ := Prod.mk.inj (Option.some.inj (h'.first.symm.trans h.first))
  obtain ⟨rfl, hrest⟩ := List.append_inj (h'.parts.symm.trans h.parts) hlength
  exact ⟨rfl, rfl, List.append_cancel_left hrest⟩

/-- The first word is read where it stands, whatever the places are counted from. -/
theorem exists_firstWord {i j : Nat} {s word : List Char}
    (h : (wordsFrom i s).head? = some (j, word)) :
    ∃ gap rest, FirstWord s gap word rest ∧ ReadsWord (word ++ rest) word rest := by
  obtain ⟨back, hback⟩ := List.head?_eq_some_iff.mp h
  have hwords : wordsFrom i s = [] ++ (j, word) :: back := hback
  obtain ⟨gap, b, rest, rfl, hj, hreads, -⟩ := exists_of_wordsFrom_eq hwords
  obtain rfl := hreads.eq_append
  refine ⟨gap, rest, ⟨rfl, ?_⟩, hreads⟩
  rw [← Nat.add_zero i, wordsFrom_add, List.head?_map] at h
  obtain ⟨⟨k, found⟩, hfound, heq⟩ := Option.map_eq_some_iff.mp h
  obtain ⟨hk, rfl⟩ := Prod.mk.inj heq
  obtain rfl : k = gap.length := by omega
  exact hfound

/-- In front of the first word there is no word character but in a literal, so what stands there
behind blanks is none. -/
theorem any_head?_trimStart_of_wordsFrom {i : Nat} {gap s word : List Char}
    (h : (wordsFrom i (gap ++ s)).head? = some (i + gap.length, word)) :
    (trimStart gap).head?.any isWordChar = false := by
  induction gap generalizing i with
  | nil => rfl
  | cons c gap ih =>
    have hc : isWordChar c = false := by
      refine eq_false_of_ne_true fun hc => ?_
      rw [List.cons_append, wordsFrom_run hc, List.length_cons] at h
      have hplace := (Prod.mk.inj (Option.some.inj h)).1
      omega
    by_cases hblank : isBlank c = true
    · have hquote : isQuote c = false := by
        have hsingle : c ≠ '\'' := ne_of_isBlank hblank (by decide)
        have hdouble : c ≠ '"' := ne_of_isBlank hblank (by decide)
        simp [isQuote, hsingle, hdouble]
      rw [List.cons_append, wordsFrom_cons hquote hc, List.length_cons, ← Nat.add_assoc,
        Nat.add_right_comm] at h
      rw [trimStart, List.dropWhile_cons_of_pos hblank]
      exact ih h
    · rw [trimStart, List.dropWhile_cons_of_neg hblank]
      exact hc

/-- What does not end in the last character of a text leaves it to what follows. -/
theorem exists_of_append_eq_concat {a b s : List Char} {c : Char} (h : a ++ b = s ++ [c])
    (ha : a.getLast? ≠ some c) : ∃ b', b = b' ++ [c] ∧ s = a ++ b' := by
  rcases List.eq_nil_or_concat b with rfl | ⟨b', d, rfl⟩
  · rw [List.append_nil] at h
    rw [h, List.getLast?_concat] at ha
    exact absurd rfl ha
  · rw [List.concat_eq_append, ← List.append_assoc] at h
    obtain ⟨hs, hd⟩ := List.append_inj' h rfl
    obtain rfl := (List.cons.inj hd).1
    exact ⟨b', List.concat_eq_append, hs.symm⟩

/-- A word does not end in a character that is none of a word. -/
theorem getLast?_ne_of_word {word : List Char} (h : ∀ c ∈ word, isWordChar c = true) {c : Char}
    (hc : isWordChar c = false) : word.getLast? ≠ some c := by
  intro hlast
  exact ne_of_isWordChar (h c (List.mem_of_getLast? hlast)) hc rfl

theorem any_head?_of_isPrefix {t s : List Char} (h : t <+: s) {p : Char → Bool}
    (hs : s.head?.any p = false) : t.head?.any p = false := by
  cases t with
  | nil => rfl
  | cons c t =>
    obtain ⟨rest, rfl⟩ := h
    exact hs

/-- In normal form there is no blank in a word. -/
theorem isBlank_eq_false_of_word {n : Nesting} (hn : n.quote = none) {word rest : List Char}
    (hloose : everyOpen (fun _ => isLooseAt) n (word ++ rest) = true)
    (hword : ∀ c ∈ word, isWordChar c = true) : ∀ c ∈ word, isBlank c = false := by
  induction word with
  | nil => exact fun c hc => by cases hc
  | cons c word ih =>
    obtain ⟨hc, hword⟩ := List.forall_mem_cons.mp hword
    obtain ⟨hhere, hloose⟩ := of_everyOpen_cons hloose
    rw [step_of_isWordChar hc hn] at hloose
    refine List.forall_mem_cons.mpr ⟨eq_false_of_ne_true fun hblank => ?_, ih hloose hword⟩
    have hopen : ((n.depthAt? c).isNone) = false := by
      rw [Source.isNone_depthAt?, hn, isQuote_of_isWordChar hc]
      rfl
    obtain ⟨d, hd⟩ := Option.isSome_iff_exists.mp (Option.isNone_eq_false_iff.mp hopen)
    rw [hd, Option.all_some, isLooseAt, if_pos hblank, Bool.and_eq_true] at hhere
    exact ne_of_isWordChar hc (by decide : isWordChar ' ' = false) (by simpa using hhere.1)

end Text

namespace Declaration

/-! ## Taking words off the front -/

/-- **A keyword is taken** unless it goes on, or a quoted identifier follows it directly. -/
theorem takeKeyword?_eq_none_iff {keyword word : List Char}
    (h : sameLetters word keyword = true) (t : List Char) :
    takeKeyword? keyword (word ++ t) = none ↔
      t.head?.any (fun c => isWordChar c || c == '"') = true := by
  have hlength : keyword.length = word.length := by
    rw [sameLetters_iff] at h
    rw [← length_asciiLower keyword, ← h, length_asciiLower]
  have hstarts : startsWithLetters keyword (word ++ t) = true := by
    rw [startsWithLetters, hlength, List.take_left, sameLetters_comm]
    exact h
  rw [takeKeyword?, hlength, List.drop_left, hstarts, Bool.true_and]
  cases t.head?.any (fun c => isWordChar c || c == '"') <;> simp

/-- Where no word goes on, a quoted identifier is all that can stand in the way of a keyword. The
blanks that are trimmed do not matter. -/
theorem takeKeyword?_trimEnd_eq_none_iff {keyword word t : List Char}
    (h : sameLetters word keyword = true) (ht : t.head?.any isWordChar = false) :
    takeKeyword? keyword (word ++ trimEnd t) = none ↔ t.head? = some '"' := by
  rw [takeKeyword?_eq_none_iff h]
  cases t with
  | nil => simp [trimEnd, trimStart]
  | cons c t =>
    have hc : isWordChar c = false := ht
    by_cases hblank : isBlank c = true
    · have hquote : c ≠ '"' := ne_of_isBlank hblank (by decide)
      have hnone : (c :: t).head?.any (fun c => isWordChar c || c == '"') = false := by
        simp [hc, hquote]
      rw [any_head?_of_isPrefix (trimEnd_isPrefix (c :: t)) hnone]
      simp [hquote]
    · rw [Source.head?_trimEnd (eq_false_of_ne_true hblank)]
      simp [hc]

/-- A keyword is a word. -/
theorem takeKeyword?_eq_none_of_head {keyword s : List Char} (hkeyword : IsKeyword keyword)
    (hne : keyword ≠ []) (hs : s.head?.any isWordChar = false) : takeKeyword? keyword s = none := by
  have hstarts : startsWithLetters keyword s = false := by
    refine eq_false_of_ne_true fun hstarts => ?_
    have hchars := hkeyword.of_sameLetters hstarts
    cases s with
    | nil =>
      rw [startsWithLetters, List.take_nil, sameLetters_iff] at hstarts
      exact hne (List.map_eq_nil_iff.mp hstarts)
    | cons c s =>
      have hmem : c ∈ (c :: s).take keyword.length := by
        rw [List.take_cons (List.length_pos_iff.mpr hne)]
        exact List.mem_cons_self
      have hc : isWordChar c = false := hs
      rw [hchars c hmem] at hc
      cases hc
  rw [takeKeyword?, hstarts, Bool.false_and]
  rfl

/-- No name is taken where there is none in the first word. -/
theorem takeIdentifier?_of_lacksName {s word rest : List Char} (h : ReadsWord s word rest)
    (htrimmed : IsTrimmed word) (hlacks : LacksName word) (t : List Char) :
    takeIdentifier? (word ++ t) = none := by
  have hne := h.ne_nil
  rw [takeIdentifier?, htrimmed.trimStart_append hne]
  cases h with
  | run _ hword hrest =>
    obtain ⟨c, word, rfl⟩ := List.exists_cons_of_ne_nil hne
    have hquote : c ≠ '"' := ne_of_isWordChar (hword c List.mem_cons_self) (by decide)
    have hdigit : c.isDigit = true := by
      rcases hlacks with hdigit | ⟨back, hback⟩
      · exact hdigit
      · exact absurd (List.cons.inj hback).1.symm hquote
    rw [List.cons_append]
    dsimp only
    rw [if_neg hquote, hdigit, Bool.not_true, Bool.and_false]
    rfl
  | quoted s =>
    rcases hlacks with hdigit | ⟨back, hback⟩
    · cases hdigit
    · rw [List.cons_append, ← (List.cons.inj hback).2]
      rfl

/-- **The name in the first word** is taken in front of anything that begins as what follows it does. A
quote inside of the word is left over. -/
theorem exists_of_not_lacksName {s word rest : List Char} (h : ReadsWord s word rest)
    (hrest : rest ≠ []) (htrimmed : IsTrimmed word) (hlacks : ¬ LacksName word) :
    ∃ name left, (HoldsQuote word → left.head? = some '"') ∧ (¬ HoldsQuote word → left = []) ∧
      ∀ t, t <+: rest → takeIdentifier? (word ++ t) = some (name, left ++ t) := by
  obtain ⟨hdigit, hpair⟩ := not_or.mp hlacks
  cases h with
  | run hne hword hbehind =>
    refine ⟨word, [], fun hquote => ?_, fun _ => rfl, fun t ht => ?_⟩
    · have hmem : '"' ∈ word := List.mem_of_mem_tail (List.mem_of_mem_dropLast hquote)
      cases hword '"' hmem
    · exact takeIdentifier?_plain hne hword (eq_false_of_ne_true hdigit) htrimmed.head
        (any_head?_of_isPrefix ht hbehind)
  | quoted s =>
    obtain ⟨name, left, htake, hname, hleft⟩ := exists_of_drop_quotedLength hrest
    rw [htake] at hpair ⊢
    have hne : name ≠ [] := by
      rintro rfl
      exact hpair ⟨left, rfl⟩
    have hholds : HoldsQuote ('"' :: (name ++ '"' :: left)) ↔ left ≠ [] := by
      rw [HoldsQuote, List.tail_cons, List.dropLast_append_of_ne_nil (List.cons_ne_nil _ _)]
      cases left with
      | nil => simpa using hname
      | cons c left => simp
    refine ⟨name, left, fun hquote => hleft (hholds.mp hquote), fun hnone => ?_, fun t _ => ?_⟩
    · exact not_not.mp fun hmore => hnone (hholds.mpr hmore)
    · have htaken := takeIdentifier?_quoted hne hname (left ++ t)
      simpa using htaken

end Declaration

namespace Source

/-! ## The first word of a fragment -/

/-- What begins a declaration behind a word does not begin it at the beginning. -/
theorem declarationStart?_behind_ne {s word rest : List Char} (h : ReadsWord s word rest)
    (kind : Kind) : declarationStart? (wordsFrom word.length rest) ≠ some (0, kind) := by
  intro hstart
  obtain ⟨⟨i, later⟩, hlater, rfl⟩ := exists_mem_of_declarationStart? hstart
  obtain ⟨front, back, hwords⟩ := List.append_of_mem hlater
  obtain ⟨a, b, tail, -, hi, -⟩ := exists_of_wordsFrom_eq hwords
  have hpos : 0 < word.length := List.length_pos_iff.mpr h.ne_nil
  omega

/-- The first word of a declaration is its keyword, or stands in front of the keyword `constant`. -/
theorem of_declarationStart? {s word rest : List Char} {kind : Kind}
    (h : declarationStart? (words s) = some (0, kind)) (hreads : ReadsWord s word rest) :
    (kind ≠ .constant → sameLetters word kind.keyword.toList = true) ∧
      (kind = .constant → (wordsFrom word.length rest).head?.any
        (fun next => sameLetters next.2 Kind.constant.keyword.toList) = true) := by
  rw [words, hreads.wordsFrom_eq, Nat.zero_add, declarationStart?] at h
  split_ifs at h with hfunction hprocedure hconstant
  · obtain rfl := (Prod.mk.inj (Option.some.inj h)).2
    exact ⟨fun _ => hfunction, fun h => by cases h⟩
  · obtain rfl := (Prod.mk.inj (Option.some.inj h)).2
    exact ⟨fun _ => hprocedure, fun h => by cases h⟩
  · obtain rfl := (Prod.mk.inj (Option.some.inj h)).2
    exact ⟨fun h => absurd rfl h, fun _ => hconstant⟩
  · exact absurd h (declarationStart?_behind_ne hreads kind)

/-- What the text of a fragment begins with. -/
theorem exists_of_mem_scan {source : String} {f : Fragment} (hf : f ∈ scan source) :
    ∃ b, f.text.toList = trimEnd b ∧ declarationStart? (words b) = some (0, f.kind) ∧
      (f.terminated = true → trimEnd b = b) := by
  obtain ⟨statement, hstatement, hfragment⟩ := List.mem_filterMap.mp hf
  obtain ⟨front, g, back, kind, hglyphs, -, -, hstart, -, rfl⟩ :=
    Statement.exists_of_fragment? hfragment
  refine ⟨Glyph.text (g :: back), String.toList_ofList, hstart, fun hterminated => ?_⟩
  obtain ⟨s, hs, -⟩ := exists_of_mem_statementsOf
    (legible_glyphsFrom .code .start source.toList .start rfl) statement hstatement hterminated
  -- the text of the statement ends in its semicolon
  have hparts : Glyph.text front ++ Glyph.text (g :: back) = s ++ [';'] := by
    rw [← Glyph.text_append, ← hglyphs]
    exact hs
  have hlast : (Glyph.text (g :: back)).getLast? = some ';' := by
    have hwhole := congrArg List.getLast? hparts
    rwa [List.getLast?_append_of_ne_nil _ (by simp [Glyph.text]), List.getLast?_concat] at hwhole
  exact trimEnd_eq_self (by rw [hlast]; rfl)

theorem ne_nil_of_sameLetters_keyword {word : List Char} {kind : Kind}
    (h : sameLetters word kind.keyword.toList = true) : word ≠ [] := by
  rintro rfl
  have hnil : sameLetters [] kind.keyword.toList = false := by
    cases kind <;> decide
  rw [h] at hnil
  cases hnil

theorem isTrimmed_keyword (kind : Kind) : IsTrimmed kind.keyword.toList := by
  cases kind <;> decide

/-- A routine begins with its keyword, whatever the letters, and the keyword is a whole word. -/
theorem exists_keyword {source : String} {f : Fragment} (hf : f ∈ scan source)
    (hkind : f.kind ≠ .constant) :
    ∃ keyword rest, f.text.toList = keyword ++ rest ∧
      sameLetters keyword f.kind.keyword.toList = true ∧
      (∀ c ∈ keyword, isWordChar c = true) ∧ rest.head?.any isWordChar = false := by
  obtain ⟨b, htext, hstart, -⟩ := exists_of_mem_scan hf
  obtain ⟨a, b', word, rest, rfl, ha, -, hreads, -⟩ := exists_of_declarationStart? hstart
  obtain rfl := List.eq_nil_of_length_eq_zero ha
  rw [List.nil_append] at htext hstart
  have hsame := (of_declarationStart? hstart hreads).1 hkind
  obtain ⟨hword, hrest⟩ := hreads.of_sameLetters (isKeyword_keyword f.kind) hsame
  refine ⟨word, trimEnd rest, ?_, hsame, hword, ?_⟩
  · rw [htext, hreads.eq_append,
      trimEnd_append ((isTrimmed_keyword f.kind).of_sameLetters hsame).last]
  · exact any_head?_of_isPrefix (trimEnd_isPrefix rest) hrest

/-- The body of a text that its semicolon ends. -/
theorem body_concat (s : List Char) : Declaration.body (s ++ [';']) = trim s := by
  rw [Declaration.body, List.getLast?_concat, if_pos rfl, List.dropLast_concat]

/-- A quote that begins what a text ends with begins it without the semicolon, too. -/
theorem head?_concat_iff (s : List Char) :
    (s ++ [';']).head? = some '"' ↔ s.head? = some '"' := by
  cases s with
  | nil => decide
  | cons c s => rfl

/-- **The keyword of a routine** is missed exactly if a quoted identifier follows it directly. -/
theorem failsWith_routine_iff {source : String} {f : Fragment} (hf : f ∈ scan source)
    (hkind : f.kind ≠ .constant) {keyword rest : List Char}
    (htext : f.text.toList = keyword ++ rest)
    (hsame : sameLetters keyword f.kind.keyword.toList = true)
    (hkeyword : ∀ c ∈ keyword, isWordChar c = true) (hrest : rest.head?.any isWordChar = false)
    {kind : Kind} (hother : kind ≠ .constant) :
    Declaration.FailsWith f ("expected `" ++ kind.keyword ++ "`") ↔
      f.kind = kind ∧ isBalanced f.text.toList = true ∧ f.terminated = true ∧
        rest.head? = some '"' := by
  rw [Declaration.failsWith_keywordExpected hkind hother]
  refine and_congr_right fun _ => and_congr_right fun hbalanced => and_congr_right fun ht => ?_
  obtain ⟨s, hs, -, -⟩ := exists_loose_of_mem_scan hf ht hbalanced
  obtain ⟨rest', rfl, rfl⟩ :=
    exists_of_append_eq_concat (htext.symm.trans hs) (getLast?_ne_of_word hkeyword rfl)
  have htrimmed := (isTrimmed_keyword f.kind).of_sameLetters hsame
  have hne := ne_nil_of_sameLetters_keyword hsame
  have hrest' := any_head?_of_isPrefix (List.prefix_append rest' [';']) hrest
  rw [hs, body_concat, trim_append hne htrimmed, head?_concat_iff]
  exact Declaration.takeKeyword?_trimEnd_eq_none_iff hsame hrest'

/-! ## Constants -/

/-- **Behind the name of a constant** the reader passes over blanks, and then it misses the keyword
if that does not stand there, or if a quote follows it. -/
theorem takeKeyword?_behind_gap_eq_none_iff {gap keyword tail : List Char}
    (hgap : (trimStart gap).head?.any isWordChar = false)
    (hsame : sameLetters keyword Kind.constant.keyword.toList = true)
    (htail : tail.head?.any isWordChar = false) :
    Declaration.takeKeyword? Kind.constant.keyword.toList
        (trimStart (trimEnd (gap ++ (keyword ++ tail)))) = none ↔
      (∃ c ∈ gap, isBlank c = false) ∨ tail.head? = some '"' := by
  have hne := ne_nil_of_sameLetters_keyword hsame
  have htrimmed := (isTrimmed_keyword .constant).of_sameLetters hsame
  have hlast : (gap ++ keyword).getLast?.any isBlank = false := by
    rw [List.getLast?_append_of_ne_nil _ hne]
    exact htrimmed.last
  rw [← List.append_assoc, trimEnd_append hlast, List.append_assoc]
  by_cases hblanks : ∀ c ∈ gap, isBlank c = true
  · have hnone : ¬ ∃ c ∈ gap, isBlank c = false := by
      rintro ⟨c, hc, hblank⟩
      rw [hblanks c hc] at hblank
      cases hblank
    rw [trimStart_append_of_blank hblanks, htrimmed.trimStart_append hne,
      Declaration.takeKeyword?_trimEnd_eq_none_iff hsame htail, or_iff_right hnone]
  · obtain ⟨c, hc, hblank⟩ : ∃ c ∈ gap, isBlank c = false := by simpa using hblanks
    refine iff_of_true ?_ (.inl ⟨c, hc, hblank⟩)
    -- what is left of the gap begins with no word character
    have hleft : trimStart gap ≠ [] := by
      intro hnil
      have hall := List.dropWhile_eq_nil_iff.mp hnil c hc
      rw [hblank] at hall
      cases hall
    obtain ⟨d, others, hothers⟩ := List.exists_cons_of_ne_nil hleft
    refine Declaration.takeKeyword?_eq_none_of_head (isKeyword_keyword .constant) (by decide) ?_
    have happend : trimStart (gap ++ (keyword ++ trimEnd tail)) =
        trimStart gap ++ (keyword ++ trimEnd tail) := by
      rw [trimStart, List.dropWhile_append, ← trimStart, hothers]
      rfl
    rw [happend, hothers]
    rw [hothers] at hgap
    exact hgap

/-- That is said of what stands in front of the semicolon, where the keyword is the first word. -/
theorem takeKeyword?_behind_name_eq_none_iff {rest gap keyword tail : List Char}
    (hfirst : FirstWord (rest ++ [';']) gap keyword tail)
    (hsame : sameLetters keyword Kind.constant.keyword.toList = true)
    (hreads : ReadsWord (keyword ++ tail) keyword tail) :
    Declaration.takeKeyword? Kind.constant.keyword.toList (trimStart (trimEnd rest)) = none ↔
      (∃ c ∈ gap, isBlank c = false) ∨ tail.head? = some '"' := by
  obtain ⟨hchars, htail⟩ := hreads.of_sameLetters (isKeyword_keyword .constant) hsame
  have hgap : (trimStart gap).head?.any isWordChar = false := by
    have hplace := hfirst.first
    rw [words, hfirst.parts, ← Nat.zero_add gap.length] at hplace
    exact any_head?_trimStart_of_wordsFrom hplace
  -- the semicolon stands behind the keyword
  have hlast : (gap ++ keyword).getLast? ≠ some ';' := by
    rw [List.getLast?_append_of_ne_nil _ (ne_nil_of_sameLetters_keyword hsame)]
    exact getLast?_ne_of_word hchars rfl
  have hparts : gap ++ keyword ++ tail = rest ++ [';'] := by
    rw [List.append_assoc, ← hfirst.parts]
  obtain ⟨tail', rfl, rfl⟩ := exists_of_append_eq_concat hparts hlast
  have htail' := any_head?_of_isPrefix (List.prefix_append tail' [';']) htail
  rw [List.append_assoc, takeKeyword?_behind_gap_eq_none_iff hgap hsame htail',
    head?_concat_iff tail']

/-- A constant begins with a word, and behind that word comes its keyword. -/
theorem exists_readsWord_constant {source : String} {f : Fragment} (hf : f ∈ scan source)
    (hkind : f.kind = .constant) : ∃ word rest, ReadsWord f.text.toList word rest := by
  obtain ⟨b, htext, hstart, -⟩ := exists_of_mem_scan hf
  obtain ⟨a, b, word, rest, rfl, ha, -, hreads, -⟩ := exists_of_declarationStart? hstart
  obtain rfl := List.eq_nil_of_length_eq_zero ha
  rw [List.nil_append] at htext hstart
  have hnext := (of_declarationStart? hstart hreads).2 hkind
  obtain ⟨⟨j, keyword⟩, hfirst, hsame⟩ := (Option.any_eq_true _ _).mp hnext
  obtain ⟨gap, tail, hkeyword, -⟩ := exists_firstWord hfirst
  -- the keyword does not end in a blank, so nothing in front of it is trimmed
  have hlast : (word ++ gap ++ keyword).getLast?.any isBlank = false := by
    rw [List.getLast?_append_of_ne_nil _ (ne_nil_of_sameLetters_keyword hsame)]
    exact ((isTrimmed_keyword .constant).of_sameLetters hsame).last
  have hparts : b = word ++ gap ++ keyword ++ tail := by
    rw [hreads.eq_append, hkeyword.parts, List.append_assoc, List.append_assoc]
  rw [hparts, trimEnd_append hlast] at htext
  obtain ⟨c, front, hhead, hc⟩ := hreads.exists_head
  obtain ⟨more, hmore⟩ : ∃ more, f.text.toList = c :: more := by
    obtain ⟨d, word, rfl⟩ := List.exists_cons_of_ne_nil hreads.ne_nil
    rw [hreads.eq_append] at hhead
    obtain rfl := (List.cons.inj hhead).1
    exact ⟨_, htext⟩
  rw [hmore]
  rcases hc with hc | rfl
  · exact ⟨_, _, readsWord_run hc more⟩
  · exact ⟨_, _, .quoted more⟩

section Constant

variable {source : String} {f : Fragment} (hf : f ∈ scan source) (hkind : f.kind = .constant)
  {word rest : List Char} (hword : ReadsWord f.text.toList word rest)

include hf hkind hword

/-- The first word behind the name is the keyword. -/
theorem exists_firstWord_constant (hterminated : f.terminated = true) :
    ∃ gap keyword tail, FirstWord rest gap keyword tail ∧
      sameLetters keyword Kind.constant.keyword.toList = true ∧
      ReadsWord (keyword ++ tail) keyword tail := by
  obtain ⟨b, htext, hstart, hself⟩ := exists_of_mem_scan hf
  rw [htext, hself hterminated] at hword
  have hnext := (of_declarationStart? hstart hword).2 hkind
  cases hfirst : (wordsFrom word.length rest).head? with
  | none =>
    rw [hfirst] at hnext
    cases hnext
  | some first =>
    rw [hfirst] at hnext
    obtain ⟨gap, tail, hkeyword, hreads⟩ := exists_firstWord hfirst
    exact ⟨gap, first.2, tail, hkeyword, hnext, hreads⟩

/-- The reader begins with the word that the scanner found. -/
theorem exists_body_eq (hbalanced : isBalanced f.text.toList = true)
    (hterminated : f.terminated = true) :
    ∃ rest', rest = rest' ++ [';'] ∧ trimEnd rest' <+: rest ∧ IsTrimmed word ∧
      Declaration.body f.text.toList = word ++ trimEnd rest' := by
  obtain ⟨s, hs, hloose, -⟩ := exists_loose_of_mem_scan hf hterminated hbalanced
  obtain ⟨gap, keyword, tail, hfirst, hsame, -⟩ :=
    exists_firstWord_constant hf hkind hword hterminated
  have hparts := hword.eq_append
  have hne := hword.ne_nil
  have hrest : rest ≠ [] := by
    rw [hfirst.parts]
    simp [ne_nil_of_sameLetters_keyword hsame]
  have hends := hword.ends hrest
  have hlast : word.getLast? ≠ some ';' := by
    rcases hends with hchars | ⟨-, hlast⟩
    · exact getLast?_ne_of_word hchars rfl
    · rw [hlast]
      decide
  obtain ⟨rest', rfl, rfl⟩ := exists_of_append_eq_concat (hparts.symm.trans hs) hlast
  have htrimmed : IsTrimmed word := by
    rcases hends with hchars | ⟨hhead, hlast⟩
    · exact .of_forall (isBlank_eq_false_of_word rfl hloose.loose hchars)
    · exact ⟨by rw [hhead]; rfl, by rw [hlast]; rfl⟩
  refine ⟨rest', rfl, (trimEnd_isPrefix rest').trans (List.prefix_append _ _), htrimmed, ?_⟩
  rw [hs, body_concat, trim_append hne htrimmed]

/-- **The name of a constant** is missed exactly if there is none in the first word. -/
theorem failsWith_nameless_iff :
    Declaration.FailsWith f "constant has no name" ↔
      isBalanced f.text.toList = true ∧ f.terminated = true ∧ LacksName word := by
  rw [Declaration.failsWith_nameless hkind]
  refine and_congr_right fun hbalanced => and_congr_right fun hterminated => ?_
  obtain ⟨rest', hsemicolon, hfront, htrimmed, hbody⟩ :=
    exists_body_eq hf hkind hword hbalanced hterminated
  rw [hbody]
  by_cases hlacks : LacksName word
  · exact iff_of_true (Declaration.takeIdentifier?_of_lacksName hword htrimmed hlacks _) hlacks
  · obtain ⟨name, left, -, -, htake⟩ :=
      Declaration.exists_of_not_lacksName hword (by simp [hsemicolon]) htrimmed hlacks
    rw [htake _ hfront]
    exact iff_of_false (Option.some_ne_none _) hlacks

/-- **The keyword `constant`** is missed exactly if there is a name in the first word, and if a quote
inside of that word, something other than blanks behind it, or a quote behind the keyword is in the
way. -/
theorem failsWith_constant_iff :
    (∃ other, Declaration.FailsWith f ("expected `constant` after " ++ other)) ↔
      isBalanced f.text.toList = true ∧ f.terminated = true ∧ ¬ LacksName word ∧
        ∃ gap keyword tail, FirstWord rest gap keyword tail ∧
          sameLetters keyword Kind.constant.keyword.toList = true ∧
          (HoldsQuote word ∨ (∃ c ∈ gap, isBlank c = false) ∨ tail.head? = some '"') := by
  rw [Declaration.failsWith_constantExpected hkind]
  refine and_congr_right fun hbalanced => and_congr_right fun hterminated => ?_
  obtain ⟨rest', hsemicolon, hfront, htrimmed, hbody⟩ :=
    exists_body_eq hf hkind hword hbalanced hterminated
  rw [hbody]
  by_cases hlacks : LacksName word
  · rw [Declaration.takeIdentifier?_of_lacksName hword htrimmed hlacks]
    exact iff_of_false (fun ⟨_, _, htake, _⟩ => by cases htake) (fun h => h.1 hlacks)
  obtain ⟨name, left, hleft, hempty, htake⟩ :=
    Declaration.exists_of_not_lacksName hword (by simp [hsemicolon]) htrimmed hlacks
  obtain ⟨gap, keyword, tail, hfirst, hsame, hreads⟩ :=
    exists_firstWord_constant hf hkind hword hterminated
  -- what is left when the name has been taken
  have hmissed : (∃ name rest, Declaration.takeIdentifier? (word ++ trimEnd rest') =
        some (name, rest) ∧
      Declaration.takeKeyword? Kind.constant.keyword.toList (trimStart rest) = none) ↔
      Declaration.takeKeyword? Kind.constant.keyword.toList
        (trimStart (left ++ trimEnd rest')) = none := by
    rw [htake _ hfront]
    exact ⟨fun ⟨_, _, htaken, hnone⟩ => by cases htaken; exact hnone, fun h => ⟨_, _, rfl, h⟩⟩
  rw [hmissed]
  by_cases hquote : HoldsQuote word
  · refine iff_of_true ?_ ⟨hlacks, gap, keyword, tail, hfirst, hsame, .inl hquote⟩
    obtain ⟨more, rfl⟩ := List.head?_eq_some_iff.mp (hleft hquote)
    exact Declaration.takeKeyword?_eq_none_of_head (isKeyword_keyword .constant) (by decide) rfl
  obtain rfl := hempty hquote
  rw [List.nil_append, takeKeyword?_behind_name_eq_none_iff (hsemicolon ▸ hfirst) hsame hreads]
  constructor
  · exact fun h => ⟨hlacks, gap, keyword, tail, hfirst, hsame, .inr h⟩
  · rintro ⟨-, gap', keyword', tail, hfirst', -, hway⟩
    obtain ⟨rfl, rfl, rfl⟩ := hfirst.unique hfirst'
    exact hway.resolve_left hquote

end Constant

/-! ## Main statement -/

/-- **Where scanner and reader differ** on what begins a declaration. A routine begins with its
keyword, and the keyword is missed exactly if a quote follows it. A constant begins with a word. Its
name is missed exactly if there is none in that word; and otherwise the keyword, the first word behind
it, is missed exactly if a quote is doubled inside of the name, if more than blanks stand in front of
the keyword or if a quote follows it. That shows only if the parentheses balance and the semicolon is
there. -/
theorem failsWith_keyword_iff {source : String} {f : Fragment} (hf : f ∈ scan source) :
    (f.kind ≠ .constant → ∃ keyword rest, f.text.toList = keyword ++ rest ∧
      sameLetters keyword f.kind.keyword.toList = true ∧
      ∀ kind : Kind, kind ≠ .constant →
        (Declaration.FailsWith f ("expected `" ++ kind.keyword ++ "`") ↔
          f.kind = kind ∧ isBalanced f.text.toList = true ∧ f.terminated = true ∧
            rest.head? = some '"')) ∧
    (f.kind = .constant → ∃ word rest, ReadsWord f.text.toList word rest ∧
      (Declaration.FailsWith f "constant has no name" ↔
        isBalanced f.text.toList = true ∧ f.terminated = true ∧ LacksName word) ∧
      ((∃ other, Declaration.FailsWith f ("expected `constant` after " ++ other)) ↔
        isBalanced f.text.toList = true ∧ f.terminated = true ∧ ¬ LacksName word ∧
          ∃ gap keyword tail, FirstWord rest gap keyword tail ∧
            sameLetters keyword Kind.constant.keyword.toList = true ∧
            (HoldsQuote word ∨ (∃ c ∈ gap, isBlank c = false) ∨ tail.head? = some '"'))) := by
  refine ⟨fun hkind => ?_, fun hkind => ?_⟩
  · obtain ⟨keyword, rest, htext, hsame, hkeyword, hrest⟩ := exists_keyword hf hkind
    refine ⟨keyword, rest, htext, hsame, fun kind hother => ?_⟩
    exact failsWith_routine_iff hf hkind htext hsame hkeyword hrest hother
  · obtain ⟨word, rest, hword⟩ := exists_readsWord_constant hf hkind
    exact ⟨word, rest, hword, failsWith_nameless_iff hf hkind hword,
      failsWith_constant_iff hf hkind hword⟩

/-- A function whose keyword a quoted name follows directly, and one with a comment between them;
constants with a quote behind the keyword, with a comma in front of it, and with a doubled quote in
the name; and one whose name is empty. -/
theorem failsWith_keyword_iff_quoted :
    let source := "function\"F\" return number; FUNCTION/* x */\"F\" return number;\n" ++
      "Top Constant\"T\" := 1; Y, constant t := 2;\n\"a\"\"b\" constant t := 3; \"\" constant t := 4;"
    let f : Fragment := ⟨.function, "function\"F\" return number;", ⟨0, 26, 1, 1⟩, true⟩
    let g : Fragment := ⟨.function, "FUNCTION \"F\" return number;", ⟨27, 60, 1, 28⟩, true⟩
    let top : Fragment := ⟨.constant, "Top Constant\"T\" := 1;", ⟨61, 82, 2, 1⟩, true⟩
    let y : Fragment := ⟨.constant, "Y, constant t := 2;", ⟨83, 102, 2, 23⟩, true⟩
    let a : Fragment := ⟨.constant, "\"a\"\"b\" constant t := 3;", ⟨103, 126, 3, 1⟩, true⟩
    let empty : Fragment := ⟨.constant, "\"\" constant t := 4;", ⟨127, 146, 3, 25⟩, true⟩
    scan source = [f, g, top, y, a, empty] ∧ Declaration.FailsWith f "expected `function`" ∧
      ¬ Declaration.FailsWith g "expected `function`" ∧
      (∀ c ∈ [top, y, a], ∃ other, Declaration.FailsWith c ("expected `constant` after " ++ other)) ∧
      Declaration.FailsWith empty "constant has no name" := by
  intro source f g top y a empty
  have hscan : scan source = [f, g, top, y, a, empty] := by decide +kernel
  have hfunction {f : Fragment} (hf : f ∈ scan source) (hkind : f.kind = .function) :
      Declaration.FailsWith f "expected `function`" ↔
        isBalanced f.text.toList = true ∧ f.terminated = true ∧
          (f.text.toList.drop 8).head? = some '"' := by
    obtain ⟨keyword, rest, htext, hsame, hiff⟩ :=
      (failsWith_keyword_iff hf).1 (by rw [hkind]; decide)
    have hlength : keyword.length = 8 := by
      rw [hkind] at hsame
      rw [← length_asciiLower, sameLetters_iff.mp hsame]
      decide
    have hrest : f.text.toList.drop 8 = rest := by
      rw [htext, ← hlength, List.drop_left]
    rw [hrest]
    exact (hiff .function (by decide)).trans (and_iff_right hkind)
  have hconstant {c : Fragment} (hc : c ∈ scan source) (hkind : c.kind = .constant)
      {word rest : List Char} (hfirst : FirstWord c.text.toList [] word rest) :
      (Declaration.FailsWith c "constant has no name" ↔
        isBalanced c.text.toList = true ∧ c.terminated = true ∧ LacksName word) ∧
      ((∃ other, Declaration.FailsWith c ("expected `constant` after " ++ other)) ↔
        isBalanced c.text.toList = true ∧ c.terminated = true ∧ ¬ LacksName word ∧
          ∃ gap keyword tail, FirstWord rest gap keyword tail ∧
            sameLetters keyword Kind.constant.keyword.toList = true ∧
            (HoldsQuote word ∨ (∃ c ∈ gap, isBlank c = false) ∨ tail.head? = some '"')) := by
    obtain ⟨word', rest', hreads, hiff⟩ := (failsWith_keyword_iff hc).2 hkind
    have hfirst' : FirstWord c.text.toList [] word' rest' :=
      ⟨hreads.eq_append, by rw [words, hreads.wordsFrom_eq]; rfl⟩
    obtain ⟨-, rfl, rfl⟩ := hfirst.unique hfirst'
    exact hiff
  have hf : f ∈ scan source := by simp [hscan]
  have hg : g ∈ scan source := by simp [hscan]
  have htop : ∃ other, Declaration.FailsWith top ("expected `constant` after " ++ other) := by
    have hfirst : FirstWord top.text.toList [] "Top".toList " Constant\"T\" := 1;".toList :=
      ⟨by decide, by decide +kernel⟩
    have hkeyword : FirstWord " Constant\"T\" := 1;".toList [' '] "Constant".toList
        "\"T\" := 1;".toList := ⟨by decide, by decide +kernel⟩
    exact (hconstant (by simp [hscan]) rfl hfirst).2.mpr ⟨by decide +kernel, rfl, by decide, _, _, _,
      hkeyword, by decide, .inr (.inr (by decide))⟩
  have hy : ∃ other, Declaration.FailsWith y ("expected `constant` after " ++ other) := by
    have hfirst : FirstWord y.text.toList [] "Y".toList ", constant t := 2;".toList :=
      ⟨by decide, by decide +kernel⟩
    have hkeyword : FirstWord ", constant t := 2;".toList [',', ' '] "constant".toList
        " t := 2;".toList := ⟨by decide, by decide +kernel⟩
    exact (hconstant (by simp [hscan]) rfl hfirst).2.mpr ⟨by decide +kernel, rfl, by decide, _, _, _,
      hkeyword, by decide, .inr (.inl ⟨',', List.mem_cons_self, rfl⟩)⟩
  have ha : ∃ other, Declaration.FailsWith a ("expected `constant` after " ++ other) := by
    have hfirst : FirstWord a.text.toList [] "\"a\"\"b\"".toList " constant t := 3;".toList :=
      ⟨by decide, by decide +kernel⟩
    have hkeyword : FirstWord " constant t := 3;".toList [' '] "constant".toList
        " t := 3;".toList := ⟨by decide, by decide +kernel⟩
    exact (hconstant (by simp [hscan]) rfl hfirst).2.mpr ⟨by decide +kernel, rfl, by decide, _, _, _,
      hkeyword, by decide, .inl (by decide)⟩
  have hempty : FirstWord empty.text.toList [] ['"', '"'] " constant t := 4;".toList :=
    ⟨by decide, by decide +kernel⟩
  refine ⟨hscan, (hfunction hf rfl).mpr ⟨by decide +kernel, rfl, by decide⟩, fun hfails => ?_, ?_,
    (hconstant (by simp [hscan]) rfl hempty).1.mpr ⟨by decide +kernel, rfl, by decide⟩⟩
  · exact absurd ((hfunction hg rfl).mp hfails).2.2 (by decide)
  · exact List.forall_mem_cons.mpr ⟨htop, List.forall_mem_cons.mpr ⟨hy,
      List.forall_mem_singleton.mpr ha⟩⟩

end Source

end StoredRoutine
