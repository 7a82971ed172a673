import StoredRoutine.Proofs.Bytewise.Walk
import StoredRoutine.Proofs.Source.Keywords

/-!
# Scanning a fragment again

The text of a fragment is a source, too. It is in normal form, so its glyphs are its own characters
(`glyphs_of_mem_scan`), and it still begins with its declaration, though it is trimmed at its end
(`declarationStart?_of_mem_scan`).

The depth of a statement is counted from its beginning, which can stand in front of the fragment
with parentheses between them that do not match. If the parentheses of the fragment balance, that
makes no difference: a semicolon that did not end the statement does not end the fragment
(`ends_of_mem_scan`). So what is found in the text is the fragment (`scan_fragment`).
-/

namespace StoredRoutine

open Text

namespace Text

/-! ## Words at the beginning of a text -/

theorem quotedLength_cons_pos (quote c : Char) (s : List Char) :
    0 < quotedLength quote (c :: s) := by
  cases s with
  | nil => exact Nat.one_pos
  | cons d s =>
    rw [quotedLength]
    split_ifs <;> omega

/-- A quoted section ends where it does, whatever is cut off behind it. -/
theorem quotedLength_append_of_le {quote : Char} {s t : List Char}
    (h : quotedLength quote (s ++ t) ≤ s.length) :
    quotedLength quote (s ++ t) = quotedLength quote s := by
  fun_induction quotedLength quote s with
  | case1 => exact Nat.le_zero.mp h
  | case2 c =>
    have hpos := quotedLength_cons_pos quote c t
    exact Nat.le_antisymm h hpos
  | case3 c d rest hc ih =>
    rw [List.cons_append, List.cons_append, quotedLength, if_pos hc] at h ⊢
    rw [List.length_cons, Nat.add_comm] at h
    exact congrArg (1 + ·) (ih (Nat.le_of_succ_le_succ h))
  | case4 c rest hc ih =>
    rw [List.cons_append, List.cons_append, quotedLength, if_neg hc, if_pos rfl] at h ⊢
    rw [List.length_cons, List.length_cons] at h
    rw [ih (by omega)]
  | case5 c d rest hc hd =>
    rw [List.cons_append, List.cons_append, quotedLength, if_neg hc, if_neg hd]

/-- A test that does not need what follows is passed by what is left of a text that is trimmed at
its end. -/
theorem everyOpen_trimEnd {test : Int → Char → List Char → Bool} {n : Nesting} {s : List Char}
    (hlocal : ∀ d c rest t, test d c (rest ++ t) = true → test d c rest = true)
    (h : everyOpen test n s = true) : everyOpen test n (trimEnd s) = true := by
  obtain ⟨blanks, hs, -⟩ := exists_trimEnd_append s
  rw [hs] at h
  exact everyOpen_left (fun d c rest => hlocal d c rest blanks) h

/-- A word is read as far as it goes, whatever is cut off behind it. -/
theorem ReadsWord.left {word rest t : List Char}
    (h : ReadsWord (word ++ rest ++ t) word (rest ++ t)) : ReadsWord (word ++ rest) word rest := by
  generalize hs : word ++ rest ++ t = s at h
  generalize hback : rest ++ t = back at h
  cases h with
  | run hne hword hrest =>
    rw [← hback] at hrest
    exact .run hne hword (any_head?_of_isPrefix (List.prefix_append rest t) hrest)
  | quoted s =>
    have hlength : (s.take (quotedLength '"' s)).length = quotedLength '"' s :=
      List.length_take_of_le (quotedLength_le _ _)
    generalize hname : s.take (quotedLength '"' s) = name at hs hlength ⊢
    rw [List.cons_append, List.cons_append] at hs
    obtain rfl := (List.cons.inj hs).2
    have hsame : quotedLength '"' (name ++ rest ++ t) = quotedLength '"' (name ++ rest) := by
      refine quotedLength_append_of_le ?_
      rw [← hlength, List.length_append]
      exact Nat.le_add_right _ _
    have hreads := ReadsWord.quoted (name ++ rest)
    rw [← hsame, ← hlength, List.take_left, List.drop_left] at hreads
    exact hreads

theorem lt_of_head?_wordsFrom {i j : Nat} {s word : List Char}
    (h : (wordsFrom i s).head? = some (j, word)) : i < j + word.length := by
  obtain ⟨back, hback⟩ := List.head?_eq_some_iff.mp h
  have hwords : wordsFrom i s = [] ++ (j, word) :: back := hback
  obtain ⟨gap, b, rest, -, hj, hreads, -⟩ := exists_of_wordsFrom_eq hwords
  have hpos := List.length_pos_iff.mpr hreads.ne_nil
  omega

theorem ReadsWord.head?_wordsFrom_left {s t word back : List Char}
    (h : ReadsWord (s ++ t) word back) (hlength : word.length ≤ s.length) (i : Nat) :
    (wordsFrom i s).head? = some (i, word) := by
  obtain ⟨rest, rfl⟩ : word <+: s :=
    List.prefix_of_prefix_length_le ⟨back, h.eq_append.symm⟩ (List.prefix_append s t) hlength
  obtain rfl : rest ++ t = back := by
    have hparts := h.eq_append
    rwa [List.append_assoc, List.append_cancel_left_eq] at hparts
  rw [h.left.wordsFrom_eq]
  rfl

/-- **The first word of a text** is the first one, too, if what follows it is cut off. -/
theorem head?_wordsFrom_left {i j : Nat} {s t word : List Char}
    (h : (wordsFrom i (s ++ t)).head? = some (j, word)) (hlength : j + word.length ≤ i + s.length) :
    (wordsFrom i s).head? = some (j, word) := by
  generalize hst : s ++ t = st at h
  fun_induction wordsFrom i st generalizing s
  case case1 => cases h
  case case2 i rest hquote length others ih =>
    obtain ⟨rfl, rfl⟩ := Prod.mk.inj (Option.some.inj h)
    have hreads := ReadsWord.quoted rest
    rw [← hst] at hreads
    exact hreads.head?_wordsFrom_left (Nat.le_of_add_le_add_left hlength) i
  case case3 i c rest hquote length others hc ih =>
    have hlt := lt_of_head?_wordsFrom h
    obtain ⟨d, s, rfl⟩ := List.exists_cons_of_length_pos (l := s) (by omega)
    obtain ⟨rfl, rfl⟩ := List.cons.inj hst
    rw [List.length_cons] at hlength
    have hle : length ≤ s.length := by omega
    have hsame : quotedLength d s = length := (quotedLength_append_of_le hle).symm
    rw [wordsFrom_literal hquote hc, hsame]
    refine ih ?_ (List.drop_append_of_le_length hle).symm h
    rw [List.length_drop]
    omega
  case case4 i c rest hquote hc tail ih =>
    obtain ⟨rfl, rfl⟩ := Prod.mk.inj (Option.some.inj h)
    have hreads := readsWord_run hc rest
    rw [← hst] at hreads
    exact hreads.head?_wordsFrom_left (Nat.le_of_add_le_add_left hlength) i
  case case5 i c rest hquote hc ih =>
    have hlt := lt_of_head?_wordsFrom h
    obtain ⟨d, s, rfl⟩ := List.exists_cons_of_length_pos (l := s) (by omega)
    obtain ⟨rfl, rfl⟩ := List.cons.inj hst
    rw [List.length_cons] at hlength
    rw [wordsFrom_cons (eq_false_of_ne_true hquote) (eq_false_of_ne_true hc)]
    exact ih (by omega) rfl h

/-- Blanks at the end that are not in the word do not matter to it. -/
theorem ReadsWord.trimEnd {s word rest : List Char} (h : ReadsWord s word rest)
    (hs : Text.trimEnd s = word ++ Text.trimEnd rest) :
    ReadsWord (Text.trimEnd s) word (Text.trimEnd rest) := by
  obtain ⟨blanks, hrest, -⟩ := exists_trimEnd_append rest
  rw [hs]
  generalize Text.trimEnd rest = kept at hrest ⊢
  obtain rfl := hrest
  obtain rfl := h.eq_append
  rw [← List.append_assoc] at h
  exact h.left

end Text

namespace Delimited

open Bytewise (byte)
open Source (byteLength)

/-! ## Walking over a text -/

theorem walkFrom_append (offset : Nat) (n : Nesting) (s t : List Char) :
    walkFrom offset n (s ++ t) =
      walkFrom offset n s ++ walkFrom (offset + byteLength s) (n.after s) t := by
  induction s generalizing offset n with
  | nil => rfl
  | cons c s ih =>
    rw [List.cons_append, walkFrom, ih, walkFrom, List.append_assoc, Source.byteLength_cons,
      Nat.add_assoc]
    rfl

/-- The items of a walk that stand for a character at depth zero. -/
def atTop (c : Char) (items : List (Nat × UInt8 × Int)) : List (Nat × UInt8 × Int) :=
  items.filter fun (_, b, depth) => b == byte c && depth == 0

/-- What a text lacks is not met on the walk. -/
theorem atTop_walkFrom_eq_nil {c : Char} (hc : c.toNat < 0x80) {n : Nesting} {s : List Char}
    (h : everyOpen (fun d e _ => e != c || d != 0) n s = true) (offset : Nat) :
    atTop c (walkFrom offset n s) = [] := by
  induction s generalizing offset n with
  | nil => rfl
  | cons e s ih =>
    obtain ⟨he, hs⟩ := of_everyOpen_cons h
    rw [walkFrom, atTop, List.filter_append, ← atTop, ← atTop, ih hs, List.append_nil]
    cases hd : n.depthAt? e with
    | none => rfl
    | some d =>
      rw [hd, Option.all_some, Bool.or_eq_true, bne_iff_ne, bne_iff_ne] at he
      refine List.filter_eq_nil_iff.mpr fun item hitem hfound => ?_
      obtain ⟨hb, hdepth⟩ := Bytewise.of_mem_bytesOf hitem
      rw [Bool.and_eq_true, beq_iff_eq, beq_iff_eq, Bytewise.eq_byte_iff hc hb, hdepth] at hfound
      exact he.elim (· hfound.1) (· hfound.2)

/-- A character of ASCII behind a closed text that lacks it is met once. -/
theorem atTop_walk_concat {c : Char} (hc : c.toNat < 0x80) {s : List Char} (hclosed : IsClosed s)
    (hlacks : Lacks c s) (hdepth : Nesting.start.depthAt? c = some 0) :
    atTop c (walkFrom 0 .start (s ++ [c])) = [(byteLength s, byte c, 0)] := by
  rw [walkFrom_append, hclosed, Bytewise.walkFrom_open hdepth, Bytewise.bytesOf_of_ascii hc,
    walkFrom, List.append_nil, Nat.zero_add, atTop, List.filter_append, ← atTop,
    atTop_walkFrom_eq_nil hc hlacks]
  simp

end Delimited

namespace Source

/-! ## Where the declaration begins -/

/-- A word in front of the keyword `constant`, and the keyword, are read if the text is trimmed at
its end. -/
theorem readsWord_trimEnd_of_constant {s word rest : List Char} (h : ReadsWord s word rest)
    (hnext : beginsWithConstant (wordsFrom word.length rest) = true) :
    ReadsWord (trimEnd s) word (trimEnd rest) ∧
      beginsWithConstant (wordsFrom word.length (trimEnd rest)) = true := by
  obtain ⟨⟨j, keyword⟩, hfirst, hsame⟩ := (Option.any_eq_true _ _).mp hnext
  obtain ⟨gap, tail, hword, -⟩ := exists_firstWord hfirst
  have hne : keyword ≠ [] := ne_nil_of_sameLetters_keyword hsame
  have hj : word.length + gap.length = j := by
    have hplace := hfirst
    rw [← Nat.add_zero word.length, wordsFrom_add, List.head?_map, ← words, hword.first] at hplace
    exact (Prod.mk.inj (Option.some.inj hplace)).1
  -- the keyword does not end in a blank, so nothing of it is trimmed
  have htrim : ∀ front, trimEnd (front ++ keyword ++ tail) = front ++ keyword ++ trimEnd tail := by
    intro front
    refine trimEnd_append ?_ tail
    rw [List.getLast?_append_of_ne_nil front hne]
    exact ((isTrimmed_keyword .constant).of_sameLetters hsame).last
  have hrest : trimEnd rest = gap ++ keyword ++ trimEnd tail := by
    rw [hword.parts, ← List.append_assoc, htrim]
  refine ⟨h.trimEnd ?_, ?_⟩
  · rw [hrest, h.eq_append, hword.parts]
    have hwhole := htrim (word ++ gap)
    simp only [List.append_assoc] at hwhole ⊢
    exact hwhole
  · obtain ⟨blanks, hblanks, -⟩ := exists_trimEnd_append rest
    rw [hblanks] at hfirst
    have hlength : j + keyword.length ≤ word.length + (trimEnd rest).length := by
      rw [hrest, List.length_append, List.length_append]
      omega
    rw [beginsWithConstant, head?_wordsFrom_left hfirst hlength]
    exact hsame

/-- **The declaration at the beginning of a text** is found if the text is trimmed at its end. -/
theorem declarationStart?_trimEnd {s : List Char} {kind : Kind}
    (h : declarationStart? (words s) = some (0, kind)) :
    declarationStart? (words (trimEnd s)) = some (0, kind) := by
  obtain ⟨a, b, word, rest, rfl, ha, -, hreads, -⟩ := exists_of_declarationStart? h
  obtain rfl := List.eq_nil_of_length_eq_zero ha
  rw [List.nil_append] at h ⊢
  -- the word of a routine is its keyword
  have hroutine : ∀ keyword : Kind, sameLetters word keyword.keyword.toList = true →
      ReadsWord (trimEnd b) word (trimEnd rest) := by
    intro keyword hsame
    refine hreads.trimEnd ?_
    rw [hreads.eq_append, trimEnd_append ((isTrimmed_keyword keyword).of_sameLetters hsame).last]
  rw [words, hreads.wordsFrom_eq, declarationStart?, Nat.zero_add] at h
  split_ifs at h with hfunction hprocedure hconstant
  · rw [words, (hroutine .function hfunction).wordsFrom_eq, declarationStart?, if_pos hfunction, h]
  · rw [words, (hroutine .procedure hprocedure).wordsFrom_eq, declarationStart?, if_neg hfunction,
      if_pos hprocedure, h]
  · obtain ⟨hword, hnext⟩ := readsWord_trimEnd_of_constant hreads hconstant
    rw [words, hword.wordsFrom_eq, declarationStart?, if_neg hfunction, if_neg hprocedure,
      Nat.zero_add]
    exact (if_pos hnext).trans h
  · exact absurd h (declarationStart?_behind_ne hreads kind)

/-! ## What a fragment is cut out of -/

/-- A statement holds what is legible by itself, and a semicolon ends it or nothing does. -/
theorem exists_legible_of_mem_statementsOf {size : Nat} {gs : List Glyph} (h : Legible .start gs) :
    ∀ statement ∈ statementsOf size gs, ∃ own, Legible .start own ∧
      statement.glyphs = collapse own ∧
      (statement.terminated = false → firstStatement? own = none) := by
  fun_induction statementsOf size gs with
  | case1 gs first others hfirst ih =>
    obtain ⟨-, hothers⟩ := terminated_of_firstStatement? h hfirst
    obtain ⟨w, g, rfl, rfl, -⟩ := deeper_of_firstStatement? h hfirst
    intro statement hmem
    rcases List.mem_cons.mp hmem with rfl | hmem
    · rw [List.append_cons] at h
      exact ⟨w ++ [g], h.left, rfl, fun hfalse => by cases hfalse⟩
    · exact ih hothers statement hmem
  | case2 gs hnone hlast =>
    intro statement hmem
    cases hmem
  | case3 gs hnone hlast =>
    intro statement hmem
    obtain rfl := List.mem_singleton.mp hmem
    exact ⟨gs, h, rfl, fun _ => hnone⟩

/-- **What a fragment is cut out of** is legible from the first word of the declaration on. If the
parentheses balance and no semicolon ended the statement, none ends it if it begins there. -/
theorem exists_legible_of_mem_scan {source : String} {f : Fragment} (hf : f ∈ scan source) :
    ∃ gs, Legible .start gs ∧ f.text.toList = trimEnd (Glyph.text (collapse gs)) ∧
      (isBalanced f.text.toList = true → f.terminated = false → firstStatement? gs = none) := by
  obtain ⟨statement, hstatement, hfragment⟩ := List.mem_filterMap.mp hf
  obtain ⟨own, hlegible, hglyphs, hlast⟩ := exists_legible_of_mem_statementsOf
    (legible_glyphsFrom .code .start source.toList .start rfl) statement hstatement
  obtain ⟨front, g, back, kind, hparts, hquote, hgap, -, -, rfl⟩ :=
    Statement.exists_of_fragment? hfragment
  obtain ⟨pre, post, rfl, rfl, rfl⟩ := exists_of_collapseFrom_eq hgap (hglyphs.symm.trans hparts)
  rw [hlegible.left.after_collapseFrom true] at hquote
  have hbehind : Legible .start (g :: post) := hlegible.right.congr hquote.symm
  have hcollapse : g :: collapseFrom false post = collapse (g :: post) := by
    rw [collapse, collapseFrom, hgap]
    rfl
  have htext : (statement.fragmentAt kind g (collapseFrom false post)).text.toList =
      trimEnd (Glyph.text (collapse (g :: post))) := by
    rw [Statement.fragmentAt, String.toList_ofList, hcollapse]
  refine ⟨g :: post, hbehind, htext, fun hbalanced hterminated => ?_⟩
  rw [htext] at hbalanced
  exact firstStatement?_eq_none_of_level (hlast hterminated) (hbehind.depthAfter_eq_zero hbalanced)

section Fragment

variable {source : String} {f : Fragment} (hf : f ∈ scan source)

include hf

theorem isTrimmed_of_mem_scan : IsTrimmed f.text.toList := by
  obtain ⟨gs, hlegible, htext, -⟩ := exists_legible_of_mem_scan hf
  rw [htext]
  exact ⟨any_head?_of_isPrefix (trimEnd_isPrefix _) (hlegible.head?_collapseFrom_true rfl),
    getLast?_trimEnd _⟩

/-- **The text of a fragment is in normal form.** -/
theorem tidy_of_mem_scan : everyOpen (fun _ => isTidyAt) .start f.text.toList = true := by
  refine everyOpen_isTidyAt ?_ (isTrimmed_of_mem_scan hf).last
  obtain ⟨gs, hlegible, htext, -⟩ := exists_legible_of_mem_scan hf
  rw [htext]
  exact everyOpen_trimEnd (fun _ _ _ _ => isLooseAt_of_append) (hlegible.loose_collapseFrom true)

/-- **The fragment begins with its declaration.** -/
theorem declarationStart?_of_mem_scan :
    declarationStart? (words f.text.toList) = some (0, f.kind) := by
  obtain ⟨b, htext, hstart, -⟩ := exists_of_mem_scan hf
  rw [htext]
  exact declarationStart?_trimEnd hstart

/-- The glyphs of the text are its own characters. -/
theorem glyphs_of_mem_scan : glyphs f.text.toList = ofText .start .start f.text.toList := by
  have hsafe : BeginsSafely [] := by decide
  have hglyphs := glyphsFrom_append (tidy_of_mem_scan hf) hsafe .start
  rw [List.append_nil, glyphsFrom, List.append_nil] at hglyphs
  exact hglyphs

/-- The semicolons of a fragment that none ends stand in parentheses. -/
theorem everyOpen_of_mem_scan (hbalanced : isBalanced f.text.toList = true)
    (hterminated : f.terminated = false) :
    everyOpen (fun d c _ => c != ';' || !decide (d ≤ 0)) .start f.text.toList = true := by
  obtain ⟨gs, hlegible, htext, hlast⟩ := exists_legible_of_mem_scan hf
  have hnone : cutAfter? (· ≤ 0) 0 gs = none := by
    have hfirst := hlast hbalanced hterminated
    unfold firstStatement? at hfirst
    split at hfirst
    · cases hfirst
    · assumption
  have hopen := hlegible.everyOpen_collapseFrom (hlegible.cutAfter?_eq_none_iff.mp hnone) true
  rw [htext]
  exact everyOpen_trimEnd (fun _ _ _ _ => id) hopen

/-- The parentheses of the glyphs come to depth zero, as those of the text do. -/
theorem depthAfter_of_mem_scan (hbalanced : isBalanced f.text.toList = true) :
    depthAfter (glyphs f.text.toList) = 0 := by
  have hlegible : Legible .start (glyphs f.text.toList) := legible_glyphsFrom .code _ _ _ rfl
  have hdepth := hlegible.depth_after
  rw [glyphs_of_mem_scan hf, text_ofText] at hdepth
  rw [isBalanced, Nesting.isLevel, Bool.and_eq_true, beq_iff_eq, hdepth] at hbalanced
  rw [glyphs_of_mem_scan hf]
  simpa [Nesting.start] using hbalanced.1

/-- **The semicolon of a fragment ends it**, and nothing else does, wherever in its statement the
fragment begins. -/
theorem ends_of_mem_scan (hbalanced : isBalanced f.text.toList = true) :
    Ends f.terminated (glyphs f.text.toList) := by
  cases hterminated : f.terminated with
  | true =>
    obtain ⟨s, hs, hloose, hlacks⟩ := exists_loose_of_mem_scan hf hterminated hbalanced
    rw [glyphs_of_mem_scan hf, hs, ofText_append, hloose.closed]
    exact ⟨_, [], firstStatement?_of_passes (passes_of_lacks hloose.closed hlacks .start) _ []⟩
  | false =>
    have hlegible : Legible .start (glyphs f.text.toList) := legible_glyphsFrom .code _ _ _ rfl
    have hnone : cutAfter? (· ≤ 0) 0 (glyphs f.text.toList) = none := by
      refine hlegible.cutAfter?_eq_none_iff.mpr ?_
      rw [glyphs_of_mem_scan hf, text_ofText]
      exact everyOpen_of_mem_scan hf hbalanced hterminated
    have hlevel : ¬ 0 < depthAfter (glyphs f.text.toList) := by
      rw [depthAfter_of_mem_scan hf hbalanced]
      exact Int.lt_irrefl 0
    rw [Ends, firstStatement?, hnone]
    exact if_neg hlevel

/-- The glyphs of a fragment that is terminated end where its text does. -/
theorem stopAfter_of_mem_scan (hbalanced : isBalanced f.text.toList = true)
    (hterminated : f.terminated = true) :
    stopAfter (glyphs f.text.toList) = byteLength f.text.toList := by
  obtain ⟨s, hs, -⟩ := exists_loose_of_mem_scan hf hterminated hbalanced
  have hstop : ((Position.start.after s).next ';').offset = byteLength (s ++ [';']) := by
    rw [Position.offset_next, Position.offset_after, byteLength_append]
    exact congrArg (· + 1) (Nat.zero_add _)
  rw [glyphs_of_mem_scan hf, hs, ofText_append, ofText, ofText, stopAfter, List.getLast?_concat]
  exact hstop

/-- A fragment begins with a character that is no space. -/
theorem exists_cons_of_mem_scan : ∃ c s, f.text.toList = c :: s ∧ c ≠ ' ' := by
  have hstart := declarationStart?_of_mem_scan hf
  have hhead := (isTrimmed_of_mem_scan hf).head
  cases hs : f.text.toList with
  | nil =>
    rw [hs, words, wordsFrom_nil] at hstart
    cases hstart
  | cons c s =>
    rw [hs] at hhead
    refine ⟨c, s, rfl, ?_⟩
    rintro rfl
    cases hhead

/-- **The text of a fragment is one statement.** -/
theorem statements_of_mem_scan (hbalanced : isBalanced f.text.toList = true) :
    statements f.text.toList = [⟨ofText .start .start f.text.toList, byteLength f.text.toList,
      f.terminated⟩] := by
  obtain ⟨c, s, hs, hc⟩ := exists_cons_of_mem_scan hf
  have htidy := tidy_of_mem_scan hf
  rw [hs] at htidy
  have hcollapse : collapse (glyphs f.text.toList) = ofText .start .start f.text.toList := by
    have hkept := collapseFrom_ofText htidy (fun _ : true = true => hc) .start []
    rw [List.append_nil, collapseFrom, List.append_nil] at hkept
    rw [glyphs_of_mem_scan hf, hs]
    exact hkept
  have hne : collapse (glyphs f.text.toList) ≠ [] := by
    rw [hcollapse, hs]
    exact List.cons_ne_nil _ _
  have hends : Ends f.terminated ([] ++ glyphs f.text.toList) := ends_of_mem_scan hf hbalanced
  rw [statements, hends.statementsOf_right (depthAfter_of_mem_scan hf hbalanced) hne
    (stopAfter_of_mem_scan hf hbalanced), hcollapse]

/-- **A fragment is what is found in its text**, if its parentheses balance. -/
theorem scan_text (hbalanced : isBalanced f.text.toList = true) :
    scan f.text = [{ f with span := ⟨0, byteLength f.text.toList, 1, 1⟩ }] := by
  obtain ⟨c, s, hs, -⟩ := exists_cons_of_mem_scan hf
  have hstart := declarationStart?_of_mem_scan hf
  have htrim := trimEnd_eq_self (isTrimmed_of_mem_scan hf).last
  have htext : Glyph.text (ofText .start .start (c :: s)) = f.text.toList := by
    rw [text_ofText, hs]
  rw [← htext] at hstart
  have hfragment : Statement.fragment? ⟨ofText .start .start f.text.toList,
      byteLength f.text.toList, f.terminated⟩ = _ :=
    Statement.fragment?_of_cons (congrArg (ofText .start .start) hs) hstart
  rw [scan, statements_of_mem_scan hf hbalanced, List.filterMap_cons_some hfragment,
    Statement.fragmentAt, ← ofText, htext, htrim, String.ofList_toList]
  rfl

/-- **The semicolon of a fragment** is the only one that a walk meets outside parentheses. -/
theorem atTop_walk_of_mem_scan (hbalanced : isBalanced f.text.toList = true)
    (hterminated : f.terminated = true) :
    Delimited.atTop ';' (Delimited.walk f.text) =
      [(byteLength f.text.toList - 1, Bytewise.byte ';', 0)] := by
  obtain ⟨s, hs, hloose, hlacks⟩ := exists_loose_of_mem_scan hf hterminated hbalanced
  have hlast : byteLength (s ++ [';']) - 1 = byteLength s := by
    rw [byteLength_append]
    exact Nat.add_sub_cancel _ _
  rw [Delimited.walk, hs, hlast]
  exact Delimited.atTop_walk_concat (by decide) hloose.closed hlacks rfl

end Fragment

/-! ## Main statement -/

/-- **Scanning a fragment again** finds it, and nothing else, at the beginning, if its parentheses
balance. Its last byte, if it is terminated, is the only semicolon outside parentheses on a walk
over the text. -/
theorem scan_fragment {source : String} {f : Fragment} (hf : f ∈ scan source)
    (hbalanced : Delimited.isBalanced f.text = true) :
    scan f.text = [{ f with span := ⟨0, byteLength f.text.toList, 1, 1⟩ }] ∧
      (f.terminated = true → Delimited.atTop ';' (Delimited.walk f.text) =
        [(byteLength f.text.toList - 1, Bytewise.byte ';', 0)]) :=
  ⟨scan_text hf hbalanced, atTop_walk_of_mem_scan hf hbalanced⟩

/-- A procedure that is cut off at a semicolon in parentheses, a constant behind a parenthesis that
is closed too often, and a function that the source breaks off. -/
theorem scan_fragment_recovered :
    let source := "package Q is (( procedure P ;\nfoo) Ö /* ( */ constant varchar2 := (';;')  ;" ++
      " function F return number \t"
    let p : Fragment := ⟨.procedure, "procedure P ;", ⟨16, 29, 1, 17⟩, true⟩
    let c : Fragment := ⟨.constant, "Ö constant varchar2 := (';;') ;", ⟨35, 76, 2, 6⟩, true⟩
    let f : Fragment := ⟨.function, "function F return number", ⟨77, 103, 2, 47⟩, false⟩
    scan source = [p, c, f] ∧
      scan p.text = [{ p with span := ⟨0, 13, 1, 1⟩ }] ∧
      Delimited.atTop ';' (Delimited.walk p.text) = [(12, Bytewise.byte ';', 0)] ∧
      scan c.text = [{ c with span := ⟨0, 32, 1, 1⟩ }] ∧
      Delimited.atTop ';' (Delimited.walk c.text) = [(31, Bytewise.byte ';', 0)] ∧
      scan f.text = [{ f with span := ⟨0, 24, 1, 1⟩ }] := by
  intro source p c f
  have hscan : scan source = [p, c, f] := by decide +kernel
  have hp : p ∈ scan source := by simp [hscan]
  have hc : c ∈ scan source := by simp [hscan]
  have hf : f ∈ scan source := by simp [hscan]
  obtain ⟨hscanP, hwalkP⟩ := scan_fragment hp (by decide +kernel)
  obtain ⟨hscanC, hwalkC⟩ := scan_fragment hc (by decide +kernel)
  obtain ⟨hscanF, -⟩ := scan_fragment hf (by decide +kernel)
  have hlengthP : byteLength p.text.toList = 13 := by decide +kernel
  have hlengthC : byteLength c.text.toList = 32 := by decide +kernel
  have hlengthF : byteLength f.text.toList = 24 := by decide +kernel
  rw [hlengthP] at hscanP hwalkP
  rw [hlengthC] at hscanC hwalkC
  rw [hlengthF] at hscanF
  exact ⟨hscan, hscanP, hwalkP rfl, hscanC, hwalkC rfl, hscanF⟩

end Source

end StoredRoutine
