import StoredRoutine.Text.LowerCase
import StoredRoutine.Text.Word
import StoredRoutine.Proofs.Text.Parts

/-!
# Small letters

What is read off a text does not depend on the case of its ASCII letters. Every operation on texts
is seen here to commute with `asciiLower`: on a text in small letters it does what it does on the
text, and its result is in small letters.

A capital and its small letter are told apart by none of the tests for characters (`apply_toLower`),
and no character that means something to the reader is a letter (`toLower_eq_iff`).
-/

namespace StoredRoutine.Text

/-! ## Characters -/

/-- A capital is one of 26, and every other character is its own small letter. -/
theorem exists_of_toLower_ne {c : Char} (h : c.toLower ≠ c) :
    ∃ n < 26, c = Char.ofNat (65 + n) ∧ c.toLower = Char.ofNat (97 + n) := by
  have hsmall : ∀ n < 26, (Char.ofNat (65 + n)).toLower = Char.ofNat (97 + n) := by decide
  have hbounds : 'A'.toNat ≤ c.toNat ∧ c.toNat ≤ 'Z'.toNat :=
    Decidable.byContradiction fun hnot => h (dif_neg hnot)
  have hA : 'A'.toNat = 65 := rfl
  have hZ : 'Z'.toNat = 90 := rfl
  have hn : c.toNat - 65 < 26 := by omega
  have hc : c = Char.ofNat (65 + (c.toNat - 65)) := by
    rw [Nat.add_sub_cancel' (by omega), Char.ofNat_toNat]
  refine ⟨c.toNat - 65, hn, hc, ?_⟩
  rw [← hsmall _ hn, ← hc]

/-- What tells no capital from its small letter tells no character from its small form. -/
theorem apply_toLower {α : Type} (f : Char → α)
    (h : ∀ n < 26, f (Char.ofNat (97 + n)) = f (Char.ofNat (65 + n))) (c : Char) :
    f c.toLower = f c := by
  by_cases hc : c.toLower = c
  · rw [hc]
  · obtain ⟨n, hn, hcapital, hsmall⟩ := exists_of_toLower_ne hc
    rw [hsmall, hcapital, h n hn]

@[simp] theorem toLower_toLower (c : Char) : c.toLower.toLower = c.toLower :=
  apply_toLower Char.toLower (by decide) c

@[simp] theorem isBlank_toLower (c : Char) : isBlank c.toLower = isBlank c :=
  apply_toLower isBlank (by decide) c

@[simp] theorem isQuote_toLower (c : Char) : isQuote c.toLower = isQuote c :=
  apply_toLower isQuote (by decide) c

@[simp] theorem isWordChar_toLower (c : Char) : isWordChar c.toLower = isWordChar c :=
  apply_toLower isWordChar (by decide) c

@[simp] theorem isDigit_toLower (c : Char) : c.toLower.isDigit = c.isDigit :=
  apply_toLower Char.isDigit (by decide) c

@[simp] theorem utf8Size_toLower (c : Char) : c.toLower.utf8Size = c.utf8Size :=
  apply_toLower Char.utf8Size (by decide) c

@[simp] theorem isCased_toLower (c : Char) : isCased c.toLower = isCased c :=
  apply_toLower isCased (by decide +kernel) c

@[simp] theorem isCaseIgnorable_toLower (c : Char) : isCaseIgnorable c.toLower = isCaseIgnorable c :=
  apply_toLower isCaseIgnorable (by decide +kernel) c

/-- A character that is no letter is the small form of itself only. -/
theorem toLower_eq_iff {d : Char} (hd : d.isAlpha = false) (c : Char) : c.toLower = d ↔ c = d := by
  have hletters : ∀ n < 26, (Char.ofNat (97 + n)).isAlpha = true ∧
      (Char.ofNat (65 + n)).isAlpha = true := by decide
  have hne : ∀ {c : Char}, c.isAlpha = true → decide (c = d) = false := by
    intro c hc
    refine decide_eq_false ?_
    rintro rfl
    rw [hd] at hc
    cases hc
  have hsame : decide (c.toLower = d) = decide (c = d) := by
    refine apply_toLower (fun c => decide (c = d)) (fun n hn => ?_) c
    rw [hne (hletters n hn).1, hne (hletters n hn).2]
  simpa using hsame

theorem isAlpha_of_isQuote {c : Char} (h : isQuote c = true) : c.isAlpha = false := by
  rcases (by simpa [isQuote] using h : c = '\'' ∨ c = '"') with rfl | rfl <;> rfl

theorem toLower_of_isQuote {c : Char} (h : isQuote c = true) : c.toLower = c :=
  (toLower_eq_iff (isAlpha_of_isQuote h) c).mpr rfl

/-- The same for a character that may be missing. -/
theorem map_toLower_eq_some {d : Char} (hd : d.isAlpha = false) (o : Option Char) :
    o.map Char.toLower = some d ↔ o = some d := by
  cases o with
  | none => simp
  | some c => simp [toLower_eq_iff hd]

/-! ## Texts -/

@[simp] theorem asciiLower_nil : asciiLower [] = [] := rfl

@[simp] theorem asciiLower_cons (c : Char) (s : List Char) :
    asciiLower (c :: s) = c.toLower :: asciiLower s := rfl

@[simp] theorem asciiLower_append (s t : List Char) :
    asciiLower (s ++ t) = asciiLower s ++ asciiLower t := List.map_append

@[simp] theorem asciiLower_asciiLower (s : List Char) :
    asciiLower (asciiLower s) = asciiLower s := by
  simp [asciiLower]

@[simp] theorem isEmpty_asciiLower (s : List Char) : (asciiLower s).isEmpty = s.isEmpty := by
  cases s <;> rfl

theorem take_asciiLower (n : Nat) (s : List Char) :
    (asciiLower s).take n = asciiLower (s.take n) := List.map_take.symm

theorem drop_asciiLower (n : Nat) (s : List Char) :
    (asciiLower s).drop n = asciiLower (s.drop n) := List.map_drop.symm

theorem head?_asciiLower (s : List Char) : (asciiLower s).head? = s.head?.map Char.toLower :=
  List.head?_map

/-- A test for the first character that does not tell a capital from its small letter. -/
theorem any_head?_asciiLower {test : Char → Bool} (h : ∀ c, test c.toLower = test c)
    (s : List Char) : (asciiLower s).head?.any test = s.head?.any test := by
  cases s with
  | nil => rfl
  | cons c s => exact h c

theorem takeWhile_asciiLower {test : Char → Bool} (h : ∀ c, test c.toLower = test c)
    (s : List Char) : (asciiLower s).takeWhile test = asciiLower (s.takeWhile test) := by
  rw [asciiLower, List.takeWhile_map, asciiLower]
  exact congrArg (fun test => (s.takeWhile test).map Char.toLower) (funext h)

theorem dropWhile_asciiLower {test : Char → Bool} (h : ∀ c, test c.toLower = test c)
    (s : List Char) : (asciiLower s).dropWhile test = asciiLower (s.dropWhile test) := by
  rw [asciiLower, List.dropWhile_map, asciiLower]
  exact congrArg (fun test => (s.dropWhile test).map Char.toLower) (funext h)

theorem trimStart_asciiLower (s : List Char) : trimStart (asciiLower s) = asciiLower (trimStart s) :=
  dropWhile_asciiLower isBlank_toLower s

theorem trimEnd_asciiLower (s : List Char) : trimEnd (asciiLower s) = asciiLower (trimEnd s) := by
  have hreverse (s : List Char) : (asciiLower s).reverse = asciiLower s.reverse :=
    List.map_reverse.symm
  rw [trimEnd, hreverse, trimStart_asciiLower, hreverse, trimEnd]

theorem trim_asciiLower (s : List Char) : trim (asciiLower s) = asciiLower (trim s) := by
  rw [trim, trimStart_asciiLower, trimEnd_asciiLower, trim]

theorem isBlankText_asciiLower (s : List Char) : isBlankText (asciiLower s) = isBlankText s := by
  rw [isBlankText, asciiLower, List.all_map, isBlankText]
  exact congrArg s.all (funext isBlank_toLower)

theorem sameLetters_asciiLower (s t : List Char) :
    sameLetters (asciiLower s) t = sameLetters s t := by
  rw [sameLetters, asciiLower_asciiLower, sameLetters]

theorem startsWithLetters_asciiLower (word s : List Char) :
    startsWithLetters word (asciiLower s) = startsWithLetters word s := by
  rw [startsWithLetters, take_asciiLower, sameLetters_comm, sameLetters_asciiLower,
    sameLetters_comm, startsWithLetters]

theorem blankWords_asciiLower (s : List Char) :
    blankWords (asciiLower s) = (blankWords s).map asciiLower := by
  induction s with
  | nil => rfl
  | cons c rest ih =>
    rw [asciiLower_cons, blankWords.eq_def (c.toLower :: _), blankWords.eq_def (c :: rest)]
    dsimp only
    rw [isBlank_toLower, ih]
    by_cases hc : isBlank c = true
    · rw [if_pos hc, if_pos hc]
    · rw [if_neg hc, if_neg hc]
      cases rest with
      | nil => rfl
      | cons d rest =>
        cases blankWords (d :: rest) with
        | nil => rfl
        | cons word words =>
          simp only [asciiLower_cons, List.map_cons, isBlank_toLower]
          by_cases hd : isBlank d = true
          · rw [if_pos hd, if_pos hd]
            rfl
          · rw [if_neg hd, if_neg hd]
            rfl

theorem intercalate_asciiLower (words : List (List Char)) :
    [' '].intercalate (words.map asciiLower) = asciiLower ([' '].intercalate words) := by
  induction words with
  | nil => rfl
  | cons word words ih =>
    cases words with
    | nil => rw [List.map_singleton, List.intercalate_singleton, List.intercalate_singleton]
    | cons next words =>
      rw [List.map_cons] at ih
      rw [List.map_cons, List.map_cons, List.intercalate_cons_cons, List.intercalate_cons_cons, ih,
        asciiLower_append, asciiLower_append]
      rfl

/-! ## Words -/

theorem quotedLength_asciiLower {quote : Char} (hquote : isQuote quote = true) (s : List Char) :
    quotedLength quote (asciiLower s) = quotedLength quote s := by
  have hiff := toLower_eq_iff (isAlpha_of_isQuote hquote)
  fun_induction quotedLength quote s with
  | case1 => rfl
  | case2 => rfl
  | case3 c d rest hc ih =>
    rw [asciiLower_cons, asciiLower_cons, quotedLength, if_pos (mt (hiff c).mp hc), ← ih,
      asciiLower_cons]
  | case4 c rest hc ih =>
    rw [asciiLower_cons, asciiLower_cons, quotedLength, if_neg (not_not_intro ((hiff c).mpr (Decidable.of_not_not hc))),
      if_pos ((hiff _).mpr rfl), ih]
  | case5 c d rest hc hd =>
    rw [asciiLower_cons, asciiLower_cons, quotedLength, if_neg (not_not_intro ((hiff c).mpr (Decidable.of_not_not hc))),
      if_neg (mt (hiff d).mp hd)]

theorem wordsFrom_asciiLower (i : Nat) (s : List Char) :
    wordsFrom i (asciiLower s) = (wordsFrom i s).map fun (i, word) => (i, asciiLower word) := by
  fun_induction wordsFrom i s with
  | case1 => rw [asciiLower_nil, wordsFrom, List.map_nil]
  | case2 i rest hquote n others ih =>
    simp only [asciiLower_cons, toLower_of_isQuote hquote, wordsFrom, hquote,
      quotedLength_asciiLower hquote, drop_asciiLower, take_asciiLower, if_true, List.map_cons]
    exact congrArg _ ih
  | case3 i c rest hquote n others hc ih =>
    simp only [asciiLower_cons, toLower_of_isQuote hquote, wordsFrom, hquote, hc,
      quotedLength_asciiLower hquote, drop_asciiLower, if_true, if_false]
    exact ih
  | case4 i c rest hquote hword tail ih =>
    simp only [asciiLower_cons, wordsFrom, isQuote_toLower, hquote, isWordChar_toLower, hword,
      takeWhile_asciiLower isWordChar_toLower, dropWhile_asciiLower isWordChar_toLower,
      length_asciiLower, if_true, List.map_cons]
    exact congrArg ((i, c.toLower :: asciiLower tail) :: ·) ih
  | case5 i c rest hquote hword ih =>
    simp only [asciiLower_cons, wordsFrom, isQuote_toLower, hquote, isWordChar_toLower, hword]
    exact ih

/-- **The words** in small letters stand where the words stand. -/
theorem words_asciiLower (s : List Char) :
    words (asciiLower s) = (words s).map fun (i, word) => (i, asciiLower word) :=
  wordsFrom_asciiLower 0 s

/-! ## Nesting -/

namespace Nesting

variable {n : Nesting}

@[simp] theorem depthAt?_toLower (n : Nesting) (c : Char) : n.depthAt? c.toLower = n.depthAt? c := by
  rw [depthAt?, isQuote_toLower, depthAt?]
  simp only [toLower_eq_iff (d := ')') rfl]

theorem step_toLower (hn : ∀ quote ∈ n.quote, isQuote quote = true) (c : Char) :
    n.step c.toLower = n.step c := by
  cases hquote : n.quote with
  | some quote =>
    have hiff := toLower_eq_iff (isAlpha_of_isQuote (hn quote hquote)) c
    simp only [step, hquote, hiff]
  | none =>
    by_cases hopens : isQuote c = true
    · rw [toLower_of_isQuote hopens]
    · simp only [step, hquote, isQuote_toLower, hopens, toLower_eq_iff (d := '(') rfl,
        toLower_eq_iff (d := ')') rfl, Bool.false_eq_true, if_false]

theorem isQuote_of_step (hn : ∀ quote ∈ n.quote, isQuote quote = true) (c : Char) :
    ∀ quote ∈ (n.step c).quote, isQuote quote = true :=
  isQuote_of_after hn [c]

theorem after_asciiLower (hn : ∀ quote ∈ n.quote, isQuote quote = true) (s : List Char) :
    n.after (asciiLower s) = n.after s := by
  induction s generalizing n with
  | nil => rfl
  | cons c s ih =>
    rw [asciiLower_cons, after_cons, after_cons, step_toLower hn]
    exact ih (isQuote_of_step hn c)

end Nesting

theorem isBalanced_asciiLower (s : List Char) : isBalanced (asciiLower s) = isBalanced s := by
  rw [isBalanced, Nesting.after_asciiLower isQuote_of_start, isBalanced]

/-! ## Splitting and finding -/

theorem pieces_asciiLower {separator : Char} (hseparator : separator.isAlpha = false) {n : Nesting}
    (hn : ∀ quote ∈ n.quote, isQuote quote = true) (s : List Char) :
    pieces separator n (asciiLower s) = (pieces separator n s).map asciiLower := by
  induction s generalizing n with
  | nil => rfl
  | cons c s ih =>
    simp only [asciiLower_cons, pieces, Nesting.step_toLower hn, Nesting.depthAt?_toLower,
      toLower_eq_iff hseparator, ih (Nesting.isQuote_of_step hn c)]
    by_cases hc : c = separator ∧ n.depthAt? c = some 0
    · rw [if_pos hc, if_pos hc]
      rfl
    · rw [if_neg hc, if_neg hc]
      cases pieces separator (n.step c) s <;> rfl

theorem split?_asciiLower {separator : Char} (hseparator : separator.isAlpha = false)
    (s : List Char) :
    split? separator (asciiLower s) = (split? separator s).map (List.map asciiLower) := by
  rw [split?, split?, isBlankText_asciiLower, isBalanced_asciiLower,
    pieces_asciiLower hseparator isQuote_of_start, List.map_map]
  by_cases hblank : isBlankText s = true
  · rw [if_pos hblank, if_pos hblank]
    rfl
  · rw [if_neg hblank, if_neg hblank]
    by_cases hbalanced : isBalanced s = true
    · rw [if_pos hbalanced, if_pos hbalanced, Option.map_some, List.map_map]
      exact congrArg (fun f => some ((pieces separator .start s).map f)) (funext trim_asciiLower)
    · rw [if_neg hbalanced, if_neg hbalanced]
      rfl

theorem findFrom_asciiLower {test : Option Char → List Char → Bool}
    (htest : ∀ left right, test (left.map Char.toLower) (asciiLower right) = test left right)
    {n : Nesting} (hn : ∀ quote ∈ n.quote, isQuote quote = true) (left : Option Char)
    (s : List Char) :
    findFrom test n (left.map Char.toLower) (asciiLower s) = findFrom test n left s := by
  induction s generalizing n left with
  | nil => rfl
  | cons c s ih =>
    have hrest := ih (Nesting.isQuote_of_step hn c) (some c)
    have hfound := htest left (c :: s)
    rw [asciiLower_cons] at hfound
    rw [asciiLower_cons, findFrom, findFrom, Nesting.depthAt?_toLower, Nesting.step_toLower hn,
      hfound]
    exact congrArg (fun found => if n.depthAt? c = some 0 ∧ test left (c :: s) = true then some 0
      else found.map (· + 1)) hrest

theorem isPrefixOf_asciiLower {sequence : List Char}
    (hsequence : ∀ c ∈ sequence, c.isAlpha = false) (s : List Char) :
    sequence.isPrefixOf (asciiLower s) = sequence.isPrefixOf s := by
  induction sequence generalizing s with
  | nil => rfl
  | cons d sequence ih =>
    obtain ⟨hd, hrest⟩ := List.forall_mem_cons.mp hsequence
    cases s with
    | nil => rfl
    | cons c s =>
      have hfirst : (d == c.toLower) = (d == c) := by
        rw [Bool.eq_iff_iff, beq_iff_eq, beq_iff_eq, eq_comm, toLower_eq_iff hd, eq_comm]
      rw [asciiLower_cons, List.isPrefixOf, List.isPrefixOf, hfirst, ih hrest]

/-- A sequence without letters is found where it was. -/
theorem findSequence?_asciiLower {sequence : List Char}
    (hsequence : ∀ c ∈ sequence, c.isAlpha = false) (s : List Char) :
    findSequence? sequence (asciiLower s) = findSequence? sequence s := by
  rw [findSequence?, findSequence?]
  exact congrArg (fun found => if sequence.isEmpty then none else found)
    (findFrom_asciiLower (fun _ => isPrefixOf_asciiLower hsequence) isQuote_of_start none s)

theorem isWholeWord_asciiLower (word : List Char) (left : Option Char) (right : List Char) :
    isWholeWord word (left.map Char.toLower) (asciiLower right) = isWholeWord word left right := by
  have hleft : (left.map Char.toLower).any isWordChar = left.any isWordChar := by
    cases left with
    | none => rfl
    | some c => exact isWordChar_toLower c
  rw [isWholeWord, startsWithLetters_asciiLower, drop_asciiLower, hleft,
    any_head?_asciiLower isWordChar_toLower, isWholeWord]

/-- **A keyword is found where it was.** -/
theorem findKeyword?_asciiLower (keyword s : List Char) :
    findKeyword? keyword (asciiLower s) = findKeyword? keyword s :=
  findFrom_asciiLower (isWholeWord_asciiLower keyword) isQuote_of_start none s

theorem closingFrom_asciiLower (outer : Int) {n : Nesting}
    (hn : ∀ quote ∈ n.quote, isQuote quote = true) (s : List Char) :
    closingFrom outer n (asciiLower s) = closingFrom outer n s := by
  induction s generalizing n with
  | nil => rfl
  | cons c s ih =>
    have hrest := ih (Nesting.isQuote_of_step hn c)
    rw [asciiLower_cons, closingFrom, closingFrom, Nesting.depthAt?_toLower,
      Nesting.step_toLower hn]
    simp only [toLower_eq_iff (d := ')') rfl]
    exact congrArg (fun found => if c = ')' ∧ n.depthAt? c = some outer then some 0
      else found.map (· + 1)) hrest

theorem matchingParen?_asciiLower (s : List Char) (i : Nat) :
    matchingParen? (asciiLower s) i = matchingParen? s i := by
  have hn : ∀ quote ∈ (Nesting.start.after (s.take i)).quote, isQuote quote = true :=
    isQuote_of_after isQuote_of_start _
  rw [matchingParen?, matchingParen?, take_asciiLower, drop_asciiLower,
    Nesting.after_asciiLower isQuote_of_start]
  cases s.drop i with
  | nil => rfl
  | cons c rest =>
    simp only [asciiLower_cons, toLower_eq_iff (d := '(') rfl, Nesting.step_toLower hn,
      closingFrom_asciiLower _ (Nesting.isQuote_of_step hn c)]

/-! ## Unicode's small letters -/

theorem startsCased_asciiLower (s : List Char) : startsCased (asciiLower s) = startsCased s := by
  rw [startsCased, dropWhile_asciiLower isCaseIgnorable_toLower, head?_asciiLower, Option.map_map,
    startsCased]
  exact congrArg (fun f => ((s.dropWhile isCaseIgnorable).head?.map f).getD false)
    (funext isCased_toLower)

theorem lowerChar_toLower (c : Char) : lowerChar c.toLower = lowerChar c :=
  apply_toLower lowerChar (by decide) c

theorem lowerFrom_asciiLower (afterCased : Bool) (s : List Char) :
    lowerFrom afterCased (asciiLower s) = lowerFrom afterCased s := by
  induction s generalizing afterCased with
  | nil => rfl
  | cons c s ih =>
    simp only [asciiLower_cons, lowerFrom, isCaseIgnorable_toLower, isCased_toLower,
      startsCased_asciiLower, lowerChar_toLower, toLower_eq_iff (d := '\u03A3') rfl, ih]

/-- **Unicode's mapping to small letters** takes ASCII capitals with their small letters. -/
theorem lower_asciiLower (s : List Char) : lower (asciiLower s) = lower s :=
  lowerFrom_asciiLower false s

end StoredRoutine.Text

namespace StoredRoutine

/-- The text in small ASCII letters. -/
def small (s : String) : String := String.ofList (Text.asciiLower s.toList)

@[simp] theorem small_ofList (s : List Char) :
    small (String.ofList s) = String.ofList (Text.asciiLower s) := by
  rw [small, String.toList_ofList]

@[simp] theorem toList_small (s : String) : (small s).toList = Text.asciiLower s.toList :=
  String.toList_ofList

theorem small_eq_self {s : String} (h : Text.asciiLower s.toList = s.toList) : small s = s := by
  rw [small, h, String.ofList_toList]

theorem small_append (s t : String) : small (s ++ t) = small s ++ small t := by
  rw [small, String.toList_append, Text.asciiLower_append, String.ofList_append, small, small]

/-- Texts that are equal up to the case of ASCII letters have the same small form. -/
theorem sameName_iff {a b : String} : sameName a b = true ↔ small a = small b := by
  rw [sameName, Text.sameLetters_iff, small, small, String.ofList_inj]

end StoredRoutine
