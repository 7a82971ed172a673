import Mathlib.Data.List.Chain
import StoredRoutine.Proofs.Text.Blank
import StoredRoutine.Proofs.Text.Letters

/-!
# Words with single spaces between them

Cutting a text at its blanks and joining the words by spaces gives the same text wherever the words
are the same: blanks in a row, other blanks and blanks at the ends leave no trace
(`blankWords_append_cons`), and words joined by spaces are cut into these words again
(`blankWords_join`).

Unicode's mapping to small letters looks at the characters around, but what it puts for a character
is of the same kind and is mapped to nothing else (`IsSmallOf`). So it maps words joined by spaces
to such words (`exists_lowerFrom_join`), and leaves alone what is in small letters
(`lower_eq_self`).
-/

namespace StoredRoutine.Text

/-! ## Cutting at blanks -/

@[simp] theorem blankWords_nil : blankWords [] = [] := by rw [blankWords.eq_def]

theorem blankWords_cons_of_blank {c : Char} (hc : isBlank c = true) (s : List Char) :
    blankWords (c :: s) = blankWords s := by
  rw [blankWords.eq_def]
  exact if_pos hc

theorem blankWords_singleton {c : Char} (hc : isBlank c = false) : blankWords [c] = [[c]] := by
  rw [blankWords.eq_def]
  simp [hc]

/-- In front of a blank a word begins that has no more characters. -/
theorem blankWords_cons_blank {c d : Char} (hc : isBlank c = false) (hd : isBlank d = true)
    (s : List Char) : blankWords (c :: d :: s) = [c] :: blankWords s := by
  rw [blankWords.eq_def]
  simp only [hc, blankWords_cons_of_blank hd, Bool.false_eq_true, if_false]
  cases blankWords s <;> simp [hd]

/-- A word and its first character. -/
theorem blankWords_cons_cons {c d : Char} (hc : isBlank c = false) (hd : isBlank d = false)
    (s : List Char) : ∃ word words, blankWords (d :: s) = word :: words ∧
      blankWords (c :: d :: s) = (c :: word) :: words := by
  induction s generalizing c d with
  | nil =>
    refine ⟨[d], [], blankWords_singleton hd, ?_⟩
    rw [blankWords.eq_def]
    simp [hc, hd, blankWords_singleton hd]
  | cons e s ih =>
    obtain ⟨word, words, hrest⟩ : ∃ word words, blankWords (d :: e :: s) = word :: words := by
      by_cases he : isBlank e = true
      · exact ⟨_, _, blankWords_cons_blank hd he s⟩
      · obtain ⟨word, words, -, h⟩ := ih hd (by simpa using he)
        exact ⟨_, _, h⟩
    refine ⟨word, words, hrest, ?_⟩
    rw [blankWords.eq_def]
    simp [hc, hd, hrest]

/-- **Blanks separate words**, and that is all they do. -/
theorem blankWords_append_cons {c : Char} (hc : isBlank c = true) (s t : List Char) :
    blankWords (s ++ c :: t) = blankWords s ++ blankWords t := by
  induction s with
  | nil => exact blankWords_cons_of_blank hc t
  | cons d s ih =>
    by_cases hd : isBlank d = true
    · rw [List.cons_append, blankWords_cons_of_blank hd, ih, blankWords_cons_of_blank hd]
    · have hd : isBlank d = false := by simpa using hd
      cases s with
      | nil => rw [List.singleton_append, blankWords_cons_blank hd hc, blankWords_singleton hd]; rfl
      | cons e s =>
        by_cases he : isBlank e = true
        · rw [List.cons_append, List.cons_append, blankWords_cons_blank hd he,
            blankWords_cons_blank hd he]
          rw [List.cons_append, blankWords_cons_of_blank he, blankWords_cons_of_blank he] at ih
          rw [ih, List.cons_append]
        · have he : isBlank e = false := by simpa using he
          obtain ⟨word, words, hrest, hall⟩ := blankWords_cons_cons hd he (s ++ c :: t)
          obtain ⟨word', words', hrest', hall'⟩ := blankWords_cons_cons hd he s
          rw [List.cons_append, hrest, hrest', List.cons_append, List.cons.injEq] at ih
          rw [List.cons_append, List.cons_append, hall, hall', ih.1, ih.2, List.cons_append]

theorem blankWords_append_blanks {blanks : List Char} (hne : blanks ≠ [])
    (h : ∀ c ∈ blanks, isBlank c = true) (s t : List Char) :
    blankWords (s ++ blanks ++ t) = blankWords s ++ blankWords t := by
  induction blanks generalizing s with
  | nil => exact absurd rfl hne
  | cons c blanks ih =>
    obtain ⟨hc, hblanks⟩ := List.forall_mem_cons.mp h
    rw [List.append_assoc, List.cons_append, blankWords_append_cons hc]
    cases blanks with
    | nil => rfl
    | cons d blanks =>
      have hrest := ih (by simp) hblanks []
      rw [List.nil_append] at hrest
      rw [hrest]
      rfl

/-- A run of characters that are not blank. -/
structure IsWord (word : List Char) : Prop where
  ne_nil : word ≠ []
  chars : ∀ c ∈ word, isBlank c = false

theorem IsWord.blankWords_eq {word : List Char} (h : IsWord word) : blankWords word = [word] := by
  obtain ⟨hne, hchars⟩ := h
  induction word with
  | nil => exact absurd rfl hne
  | cons c word ih =>
    obtain ⟨hc, hword⟩ := List.forall_mem_cons.mp hchars
    cases word with
    | nil => exact blankWords_singleton hc
    | cons d word =>
      obtain ⟨first, words, hrest, hall⟩ := blankWords_cons_cons hc (hword d (by simp)) word
      rw [ih (by simp) hword, List.cons.injEq] at hrest
      rw [hall, ← hrest.1, ← hrest.2]

/-- The words of a text. -/
theorem isWord_of_mem_blankWords {s word : List Char} (h : word ∈ blankWords s) :
    IsWord word ∧ ∀ c ∈ word, c ∈ s := by
  induction s generalizing word with
  | nil => simp at h
  | cons c s ih =>
    have hbehind {word} (h : word ∈ blankWords s) : IsWord word ∧ ∀ d ∈ word, d ∈ c :: s :=
      ⟨(ih h).1, fun d hd => List.mem_cons_of_mem c ((ih h).2 d hd)⟩
    by_cases hc : isBlank c = true
    · rw [blankWords_cons_of_blank hc] at h
      exact hbehind h
    · have hc : isBlank c = false := by simpa using hc
      have hsingle : IsWord [c] ∧ ∀ d ∈ [c], d ∈ c :: s := ⟨⟨by simp, by simpa using hc⟩, by simp⟩
      cases s with
      | nil =>
        rw [blankWords_singleton hc, List.mem_singleton] at h
        rwa [h]
      | cons d s =>
        by_cases hd : isBlank d = true
        · rw [blankWords_cons_blank hc hd, ← blankWords_cons_of_blank hd, List.mem_cons] at h
          rcases h with rfl | h
          · exact hsingle
          · exact hbehind h
        · obtain ⟨first, words, hrest, hall⟩ := blankWords_cons_cons hc (by simpa using hd) s
          rw [hall, List.mem_cons] at h
          rcases h with rfl | h
          · have hfirst : first ∈ blankWords (d :: s) := by simp [hrest]
            obtain ⟨⟨-, hchars⟩, hmem⟩ := ih hfirst
            exact ⟨⟨by simp, by simpa [hc] using hchars⟩,
              List.forall_mem_cons.mpr ⟨by simp, fun e he => List.mem_cons_of_mem c (hmem e he)⟩⟩
          · exact hbehind (by simp [hrest, h])

/-! ## Words joined by spaces -/

/-- The words with a space between each two. -/
def join (words : List (List Char)) : List Char := [' '].intercalate words

@[simp] theorem join_nil : join [] = [] := rfl

@[simp] theorem join_singleton (word : List Char) : join [word] = word :=
  List.intercalate_singleton

@[simp] theorem join_cons_cons (word next : List Char) (words : List (List Char)) :
    join (word :: next :: words) = word ++ ' ' :: join (next :: words) := by
  rw [join, List.intercalate_cons_cons, List.append_assoc, List.singleton_append, join]

theorem blankWords_join {words : List (List Char)} (h : ∀ word ∈ words, IsWord word) :
    blankWords (join words) = words := by
  induction words with
  | nil => simp
  | cons word words ih =>
    obtain ⟨hword, hwords⟩ := List.forall_mem_cons.mp h
    cases words with
    | nil => rw [join_singleton, hword.blankWords_eq]
    | cons next words =>
      rw [join_cons_cons, blankWords_append_cons (by decide), hword.blankWords_eq, ih hwords,
        List.singleton_append]

/-- What holds of a space and of every character of the words holds of the words joined. -/
theorem forall_mem_join {p : Char → Prop} (hspace : p ' ') {words : List (List Char)}
    (h : ∀ word ∈ words, ∀ c ∈ word, p c) : ∀ c ∈ join words, p c := by
  induction words with
  | nil => simp
  | cons word words ih =>
    obtain ⟨hword, hwords⟩ := List.forall_mem_cons.mp h
    cases words with
    | nil => rwa [join_singleton]
    | cons next words =>
      rw [join_cons_cons]
      exact List.forall_mem_append.mpr ⟨hword, List.forall_mem_cons.mpr ⟨hspace, ih hwords⟩⟩

theorem join_ne_nil {word : List Char} (h : IsWord word) (words : List (List Char)) :
    join (word :: words) ≠ [] := by
  cases words with
  | nil => simpa using h.ne_nil
  | cons next words => simp

/-- There is no blank at either end and there are no two in a row, and each of them is a space. -/
structure IsSpaced (s : List Char) : Prop where
  trimmed : IsTrimmed s
  single : s.IsChain fun c d => isBlank c = false ∨ isBlank d = false
  spaces : ∀ c ∈ s, isBlank c = true → c = ' '

theorem IsWord.isSpaced {word : List Char} (h : IsWord word) : IsSpaced word where
  trimmed :=
    { head := by
        rw [Option.any_eq_false]
        exact fun c hc => by simp [h.chars c (List.mem_of_head? hc)]
      last := by
        rw [Option.any_eq_false]
        exact fun c hc => by simp [h.chars c (List.mem_of_getLast? hc)] }
  single :=
    (List.pairwise_of_forall_mem_list fun c hc _ _ => .inl (h.chars c hc)).isChain
  spaces c hc hblank := by
    rw [h.chars c hc] at hblank
    cases hblank

theorem isSpaced_join {words : List (List Char)} (h : ∀ word ∈ words, IsWord word) :
    IsSpaced (join words) := by
  induction words with
  | nil => exact ⟨by decide, by simp, by simp⟩
  | cons word words ih =>
    obtain ⟨hword, hwords⟩ := List.forall_mem_cons.mp h
    cases words with
    | nil => simpa using hword.isSpaced
    | cons next words =>
      have hnext := join_ne_nil (hwords next (by simp)) words
      obtain ⟨htrimmed, hsingle, hspaces⟩ := ih hwords
      rw [join_cons_cons]
      refine ⟨?_, ?_, ?_⟩
      · have htrim := hword.isSpaced.trimmed.append hword.ne_nil htrimmed hnext [' ']
        rwa [List.append_assoc] at htrim
      · refine List.isChain_append.mpr ⟨hword.isSpaced.single, ?_, ?_⟩
        · refine List.isChain_cons.mpr ⟨fun d hd => .inr ?_, hsingle⟩
          have := htrimmed.head
          rw [hd] at this
          exact this
        · intro c hc d hd
          exact .inl (hword.chars c (List.mem_of_getLast? hc))
      · simp only [List.mem_append, List.mem_cons]
        rintro c (hc | rfl | hc) hblank
        · exact hword.isSpaced.spaces c hc hblank
        · rfl
        · exact hspaces c hc hblank

/-! ## Tables of code points -/

/-- The code points as the bits of one number, so that two tables are compared in one step. -/
def bits (codes : List Nat) : Nat := codes.foldr (fun n m => 1 <<< n ||| m) 0

theorem testBit_bits (codes : List Nat) (n : Nat) :
    (bits codes).testBit n = decide (n ∈ codes) := by
  induction codes with
  | nil => simp [bits]
  | cons m codes ih =>
    have hcons : bits (m :: codes) = 1 <<< m ||| bits codes := rfl
    rw [hcons, Nat.testBit_or, ih, Nat.one_shiftLeft, Nat.testBit_two_pow]
    simp [eq_comm]

theorem not_mem_of_bits {codes others : List Nat} (h : bits codes &&& bits others = 0) {n : Nat}
    (hn : n ∈ codes) : n ∉ others := by
  intro hother
  have hbit : (bits codes &&& bits others).testBit n = true := by
    rw [Nat.testBit_and, testBit_bits, testBit_bits, decide_eq_true hn, decide_eq_true hother]
    rfl
  rw [h, Nat.zero_testBit] at hbit
  cases hbit

/-- The code points that the run maps. -/
def CaseRun.codes (run : CaseRun) : List Nat :=
  (List.range ((run.last - run.first) / run.step + 1)).map fun i => run.first + i * run.step

/-- The code points that the run maps to. -/
def CaseRun.images (run : CaseRun) : List Nat :=
  run.codes.map fun n : Nat => (Char.ofNat ((n : Int) + run.shift).toNat).toNat

theorem CaseRun.mem_codes {run : CaseRun} {n : Nat} (h : run.covers n = true) : n ∈ run.codes := by
  simp only [covers, Bool.and_eq_true, decide_eq_true_eq, beq_iff_eq] at h
  obtain ⟨⟨hfirst, hlast⟩, hstep⟩ := h
  refine List.mem_map.mpr ⟨(n - run.first) / run.step, List.mem_range.mpr ?_, ?_⟩
  · exact Nat.lt_succ_of_le (Nat.div_le_div_right (by omega))
  · rw [Nat.div_mul_cancel (Nat.dvd_of_mod_eq_zero hstep)]
    omega

/-- A character is mapped to an image, or it is in no run and stays as it is. -/
theorem mapByRuns_cases (runs : List CaseRun) (c : Char) :
    (c.toNat ∈ runs.flatMap CaseRun.codes ∧
      (mapByRuns runs c).toNat ∈ runs.flatMap CaseRun.images) ∨ mapByRuns runs c = c := by
  rw [mapByRuns]
  cases h : runs.find? (·.covers c.toNat) with
  | none => exact .inr rfl
  | some run =>
    have hcode : c.toNat ∈ run.codes := CaseRun.mem_codes (by simpa using List.find?_some h)
    have hrun := List.mem_of_find?_eq_some h
    exact .inl ⟨List.mem_flatMap.mpr ⟨run, hrun, hcode⟩,
      List.mem_flatMap.mpr ⟨run, hrun, List.mem_map.mpr ⟨c.toNat, hcode, rfl⟩⟩⟩

theorem mapByRuns_eq_self {runs : List CaseRun} {c : Char}
    (h : c.toNat ∉ runs.flatMap CaseRun.codes) : mapByRuns runs c = c :=
  (mapByRuns_cases runs c).resolve_left fun hcovered => h hcovered.1

/-! ## Small forms -/

/-- The blanks and the parentheses. -/
def markCodes : List Nat :=
  List.range' 9 5 ++ [0x20, 0x28, 0x29, 0x85, 0xA0, 0x1680] ++ List.range' 0x2000 11 ++
    [0x2028, 0x2029, 0x202F, 0x205F, 0x3000]

theorem mem_markCodes {c : Char} (h : isBlank c = true ∨ c = '(' ∨ c = ')') :
    c.toNat ∈ markCodes := by
  rcases h with h | rfl | rfl
  · simp only [isBlank, Bool.or_eq_true, Bool.and_eq_true, decide_eq_true_eq, beq_iff_eq] at h
    simp only [markCodes, List.mem_append, List.mem_range'_1, List.mem_cons, List.not_mem_nil]
    omega
  · decide
  · decide

/-- No blank and no parenthesis is a capital beyond ASCII. -/
theorem lowerRuns_codes : bits (lowerRuns.flatMap CaseRun.codes) &&& bits markCodes = 0 := by
  decide +kernel

/-- No small letter is a capital, a blank or a parenthesis. -/
theorem lowerRuns_images : bits (lowerRuns.flatMap CaseRun.images) &&&
    bits (lowerRuns.flatMap CaseRun.codes ++ markCodes ++ List.range' 65 26 ++ [0x130]) = 0 := by
  decide +kernel

/-- The character is its own small form. -/
structure IsSmall (c : Char) : Prop where
  ne_sigma : c ≠ '\u03A3'
  lowerChar_eq : lowerChar c = [c]

instance (c : Char) : Decidable (IsSmall c) :=
  decidable_of_iff (c ≠ '\u03A3' ∧ lowerChar c = [c])
    ⟨fun ⟨ne_sigma, lowerChar_eq⟩ => ⟨ne_sigma, lowerChar_eq⟩,
      fun ⟨ne_sigma, lowerChar_eq⟩ => ⟨ne_sigma, lowerChar_eq⟩⟩

/-- `x` is a small form of `c`, and a blank or a parenthesis only if `c` is. -/
structure IsSmallOf (c x : Char) : Prop where
  small : IsSmall x
  blank : isBlank x = isBlank c
  opens : x = '(' ↔ c = '('
  closes : x = ')' ↔ c = ')'

/-- Neither a blank nor a parenthesis. -/
theorem not_mark {c : Char} (h : c.toNat ∉ markCodes) :
    isBlank c = false ∧ c ≠ '(' ∧ c ≠ ')' := by
  refine ⟨?_, fun hc => h (mem_markCodes (.inr (.inl hc))),
    fun hc => h (mem_markCodes (.inr (.inr hc)))⟩
  by_contra hblank
  exact h (mem_markCodes (.inl (by simpa using hblank)))

theorem toLower_eq_self {c : Char} (h : c.toNat ∉ List.range' 65 26) : c.toLower = c := by
  by_contra hne
  obtain ⟨n, hn, rfl, -⟩ := exists_of_toLower_ne hne
  have hcapital : ∀ n < 26, (Char.ofNat (65 + n)).toNat ∈ List.range' 65 26 := by decide
  exact h (hcapital n hn)

/-- A small letter of a capital beyond ASCII. -/
theorem isSmall_of_mem_images {x : Char} (h : x.toNat ∈ lowerRuns.flatMap CaseRun.images) :
    IsSmall x ∧ x.toNat ∉ markCodes := by
  have hnot := not_mem_of_bits lowerRuns_images h
  simp only [List.mem_append, not_or, List.mem_singleton] at hnot
  obtain ⟨⟨⟨hcodes, hmarks⟩, hcapitals⟩, hdotted⟩ := hnot
  refine ⟨⟨?_, ?_⟩, hmarks⟩
  · rintro rfl
    exact hcodes (by decide +kernel)
  · rw [lowerChar]
    split
    · rw [toLower_eq_self hcapitals]
    · rw [if_neg (by rintro rfl; exact hdotted rfl), mapByRuns_eq_self hcodes]

theorem isSmallOf_of_mem_lowerChar {c x : Char} (hc : c ≠ '\u03A3') (hx : x ∈ lowerChar c) :
    IsSmallOf c x := by
  rw [lowerChar] at hx
  split at hx
  · next hascii =>
    rw [List.mem_singleton] at hx
    subst hx
    refine ⟨⟨?_, ?_⟩, isBlank_toLower c, toLower_eq_iff rfl c, toLower_eq_iff rfl c⟩
    · exact fun h => hc ((toLower_eq_iff rfl c).mp h)
    · rw [lowerChar_toLower, lowerChar, if_pos hascii]
  · next hascii =>
    split at hx
    · next hdotted =>
      subst hdotted
      simp only [List.mem_cons, List.not_mem_nil, or_false] at hx
      rcases hx with rfl | rfl <;> exact ⟨by decide +kernel, by decide, by decide, by decide⟩
    · next hdotted =>
      rw [List.mem_singleton] at hx
      subst hx
      rcases mapByRuns_cases lowerRuns c with ⟨hcode, himage⟩ | hsame
      · obtain ⟨hsmall, hmarks⟩ := isSmall_of_mem_images himage
        obtain ⟨hblank, hopens, hcloses⟩ := not_mark hmarks
        obtain ⟨hblank', hopens', hcloses'⟩ := not_mark (not_mem_of_bits lowerRuns_codes hcode)
        exact ⟨hsmall, hblank.trans hblank'.symm, iff_of_false hopens hopens',
          iff_of_false hcloses hcloses'⟩
      · rw [hsame]
        refine ⟨⟨hc, ?_⟩, rfl, .rfl, .rfl⟩
        rw [lowerChar, if_neg hascii, if_neg hdotted, hsame]

theorem lowerChar_ne_nil (c : Char) : lowerChar c ≠ [] := by
  rw [lowerChar]
  split
  · simp
  · split <;> simp

/-! ## Texts in small letters -/

/-- What is in small letters is left alone. -/
theorem lower_eq_self {s : List Char} (h : ∀ c ∈ s, IsSmall c) : lower s = s := by
  have hfrom (afterCased : Bool) : lowerFrom afterCased s = s := by
    induction s generalizing afterCased with
    | nil => rfl
    | cons c s ih =>
      obtain ⟨hc, hs⟩ := List.forall_mem_cons.mp h
      rw [lowerFrom, ih hs]
      simp [hc.ne_sigma, hc.lowerChar_eq]
  exact hfrom false

/-- What `lowerFrom` puts for one character. -/
theorem isSmallOf_of_mem_lowerFrom {c x : Char} {isFinal : Bool}
    (hx : x ∈ if c = '\u03A3' then [if isFinal then '\u03C2' else '\u03C3'] else lowerChar c) :
    IsSmallOf c x := by
  split at hx
  · next hc =>
    rw [List.mem_singleton] at hx
    subst hc hx
    cases isFinal <;> exact ⟨by decide +kernel, by decide, by decide, by decide⟩
  · next hc => exact isSmallOf_of_mem_lowerChar hc hx

/-- The small form of the front of a text, in which every character comes from one of the front. -/
theorem exists_lowerFrom_append (afterCased : Bool) (s t : List Char) :
    ∃ small afterCased', lowerFrom afterCased (s ++ t) = small ++ lowerFrom afterCased' t ∧
      (s ≠ [] → small ≠ []) ∧ ∀ x ∈ small, ∃ c ∈ s, IsSmallOf c x := by
  induction s generalizing afterCased with
  | nil => exact ⟨[], afterCased, rfl, by simp, by simp⟩
  | cons c s ih =>
    obtain ⟨small, afterCased', hrest, -, hsmall⟩ :=
      ih (if isCaseIgnorable c then afterCased else isCased c)
    rw [List.cons_append, lowerFrom, hrest]
    refine ⟨_, afterCased', (List.append_assoc ..).symm, fun _ => ?_, fun x hx => ?_⟩
    · refine mt List.append_eq_nil_iff.mp (not_and_of_not_left _ ?_)
      split
      · simp
      · exact lowerChar_ne_nil c
    · rcases List.mem_append.mp hx with hx | hx
      · exact ⟨c, by simp, isSmallOf_of_mem_lowerFrom hx⟩
      · obtain ⟨d, hd, hdx⟩ := hsmall x hx
        exact ⟨d, List.mem_cons_of_mem c hd, hdx⟩

/-- The second word is what the first may be in small letters. -/
structure IsSmallWordOf (word word' : List Char) : Prop where
  isWord : IsWord word'
  chars : ∀ x ∈ word', ∃ c ∈ word, IsSmallOf c x

theorem IsWord.exists_lowerFrom_append {word : List Char} (h : IsWord word) (afterCased : Bool)
    (t : List Char) : ∃ word' afterCased',
      lowerFrom afterCased (word ++ t) = word' ++ lowerFrom afterCased' t ∧
        IsSmallWordOf word word' := by
  obtain ⟨word', afterCased', hrest, hne, hsmall⟩ := Text.exists_lowerFrom_append afterCased word t
  refine ⟨word', afterCased', hrest, ⟨hne h.ne_nil, fun x hx => ?_⟩, hsmall⟩
  obtain ⟨c, hc, hcx⟩ := hsmall x hx
  rw [hcx.blank, h.chars c hc]

/-- **Words in small letters are words**, and the spaces between them stay. -/
theorem exists_lowerFrom_join {words : List (List Char)} (h : ∀ word ∈ words, IsWord word)
    (afterCased : Bool) :
    ∃ words', lowerFrom afterCased (join words) = join words' ∧ words'.length = words.length ∧
      ∀ word' ∈ words', ∃ word ∈ words, IsSmallWordOf word word' := by
  induction words generalizing afterCased with
  | nil => exact ⟨[], rfl, rfl, by simp⟩
  | cons word words ih =>
    obtain ⟨hword, hwords⟩ := List.forall_mem_cons.mp h
    cases words with
    | nil =>
      obtain ⟨word', afterCased', hrest, hsmall⟩ := hword.exists_lowerFrom_append afterCased []
      exact ⟨[word'], by simpa [lowerFrom] using hrest, rfl, by simpa using hsmall⟩
    | cons next words =>
      obtain ⟨word', afterCased', hrest, hsmall⟩ :=
        hword.exists_lowerFrom_append afterCased (' ' :: join (next :: words))
      obtain ⟨words', hjoin, hlength, hsmalls⟩ := ih hwords
        (if isCaseIgnorable ' ' then afterCased' else isCased ' ')
      have hspace : lowerFrom afterCased' (' ' :: join (next :: words)) = ' ' :: join words' := by
        rw [lowerFrom, hjoin]
        rfl
      obtain ⟨next', words', rfl⟩ := List.exists_cons_of_length_eq_add_one hlength
      refine ⟨word' :: next' :: words', ?_, congrArg (· + 1) hlength, ?_⟩
      · rw [join_cons_cons, join_cons_cons, hrest, hspace]
      · refine List.forall_mem_cons.mpr ⟨⟨word, by simp, hsmall⟩, fun other hother => ?_⟩
        obtain ⟨source, hsource, hof⟩ := hsmalls other hother
        exact ⟨source, List.mem_cons_of_mem word hsource, hof⟩

end StoredRoutine.Text
