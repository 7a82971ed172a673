import StoredRoutine.Proofs.Source.NormalForm
import StoredRoutine.Proofs.Source.Fragment
import StoredRoutine.Proofs.Text.Sections

/-!
# The word that begins a declaration

The words of a text are read from left to right, and reading can begin at any of them: from its
place on the words are the same (`exists_of_wordsFrom_eq`). So what begins a declaration somewhere
in a text begins it, too, when all that comes before is cut off (`exists_of_declarationStart?`).
A quoted word does not stand right behind a quoted section, with which it would be one
(`apart_of_mem_wordsFrom`).
-/

namespace StoredRoutine

namespace Text

/-! ## Reading words -/

/-- A quoted section ends with the text, if not before. -/
theorem quotedLength_le (quote : Char) (s : List Char) : quotedLength quote s ≤ s.length := by
  fun_induction quotedLength quote s with
  | case1 => exact Nat.le_refl 0
  | case2 c => exact Nat.le_refl 1
  | case3 c d rest hc ih =>
    rw [List.length_cons, Nat.add_comm]
    exact Nat.succ_le_succ ih
  | case4 c rest hc ih =>
    rw [List.length_cons, List.length_cons]
    omega
  | case5 c d rest hc hd =>
    rw [List.length_cons]
    exact Nat.le_add_left 1 _

@[simp] theorem wordsFrom_nil (i : Nat) : wordsFrom i [] = [] := by rw [wordsFrom]

theorem wordsFrom_quoted (i : Nat) (s : List Char) :
    wordsFrom i ('"' :: s) = (i, '"' :: s.take (quotedLength '"' s)) ::
      wordsFrom (i + (quotedLength '"' s + 1)) (s.drop (quotedLength '"' s)) := by
  rw [wordsFrom, if_pos rfl]
  exact if_pos rfl

/-- A string literal is passed over. -/
theorem wordsFrom_literal {c : Char} (hquote : isQuote c = true) (hc : c ≠ '"') (i : Nat)
    (s : List Char) :
    wordsFrom i (c :: s) =
      wordsFrom (i + (quotedLength c s + 1)) (s.drop (quotedLength c s)) := by
  rw [wordsFrom, if_pos hquote]
  exact if_neg hc

theorem wordsFrom_run {c : Char} (hc : isWordChar c = true) (i : Nat) (s : List Char) :
    wordsFrom i (c :: s) = (i, c :: s.takeWhile isWordChar) ::
      wordsFrom (i + ((s.takeWhile isWordChar).length + 1)) (s.dropWhile isWordChar) := by
  have hquote : ¬ isQuote c = true := by simp [isQuote_of_isWordChar hc]
  rw [wordsFrom, if_neg hquote, if_pos hc]

/-- **The words of a text, wherever it begins.** -/
theorem wordsFrom_add (k i : Nat) (s : List Char) :
    wordsFrom (k + i) s = (wordsFrom i s).map fun (j, word) => (k + j, word) := by
  fun_induction wordsFrom i s with
  | case1 => simp
  | case2 i rest hquote length others ih =>
    rw [wordsFrom_quoted, List.map_cons, ← ih, Nat.add_assoc]
  | case3 i c rest hquote length others hc ih =>
    rw [wordsFrom_literal hquote hc, ← ih, Nat.add_assoc]
  | case4 i c rest hquote hc tail ih =>
    rw [wordsFrom_run hc, List.map_cons, ← ih, Nat.add_assoc]
  | case5 i c rest hquote hc ih =>
    rw [wordsFrom_cons (eq_false_of_ne_true hquote) (eq_false_of_ne_true hc), ← ih, Nat.add_assoc]

/-! ## The first word of a text -/

/-- **How a word is read**: as a run of word characters that goes on as far as it can, or as a
quoted section. The second text is the word and the third one what follows it. -/
inductive ReadsWord : List Char → List Char → List Char → Prop
  | run {word rest : List Char} (hne : word ≠ []) (hword : ∀ c ∈ word, isWordChar c = true)
      (hrest : rest.head?.any isWordChar = false) : ReadsWord (word ++ rest) word rest
  | quoted (s : List Char) : ReadsWord ('"' :: s) ('"' :: s.take (quotedLength '"' s))
      (s.drop (quotedLength '"' s))

theorem head?_dropWhile_isWordChar (s : List Char) :
    (s.dropWhile isWordChar).head?.any isWordChar = false := by
  induction s with
  | nil => rfl
  | cons c s ih =>
    rw [List.dropWhile_cons]
    split_ifs with hc
    · exact ih
    · exact eq_false_of_ne_true hc

theorem readsWord_run {c : Char} (hc : isWordChar c = true) (s : List Char) :
    ReadsWord (c :: s) (c :: s.takeWhile isWordChar) (s.dropWhile isWordChar) := by
  have hword : ∀ d ∈ c :: s.takeWhile isWordChar, isWordChar d = true :=
    List.forall_mem_cons.mpr ⟨hc, fun d hd => List.all_eq_true.mp List.all_takeWhile d hd⟩
  have hparts : c :: s = c :: s.takeWhile isWordChar ++ s.dropWhile isWordChar := by
    rw [List.cons_append, List.takeWhile_append_dropWhile]
  have hreads := ReadsWord.run (List.cons_ne_nil _ _) hword (head?_dropWhile_isWordChar s)
  rwa [← hparts] at hreads

namespace ReadsWord

variable {s word rest : List Char} (h : ReadsWord s word rest)

include h

theorem eq_append : s = word ++ rest := by
  cases h with
  | run => rfl
  | quoted s => rw [List.cons_append, List.take_append_drop]

theorem ne_nil : word ≠ [] := by
  cases h with
  | run hne hword hrest => exact hne
  | quoted s => exact List.cons_ne_nil _ _

/-- A word begins with a word character or with a quote. -/
theorem exists_head : ∃ c tail, s = c :: tail ∧ (isWordChar c = true ∨ c = '"') := by
  cases h with
  | run hne hword hrest =>
    obtain ⟨c, tail, rfl⟩ := List.exists_cons_of_ne_nil hne
    exact ⟨c, _, rfl, .inl (hword c List.mem_cons_self)⟩
  | quoted s => exact ⟨'"', s, rfl, .inr rfl⟩

/-- A word is followed by the words of what follows it. -/
theorem wordsFrom_eq (i : Nat) :
    wordsFrom i s = (i, word) :: wordsFrom (i + word.length) rest := by
  cases h with
  | run hne hword hrest =>
    obtain ⟨c, tail, rfl⟩ := List.exists_cons_of_ne_nil hne
    obtain ⟨hc, htail⟩ := List.forall_mem_cons.mp hword
    obtain ⟨htake, hdrop⟩ := takeWhile_isWordChar_append htail hrest
    rw [List.cons_append, wordsFrom_run hc, htake, hdrop, List.length_cons]
  | quoted s =>
    rw [wordsFrom_quoted, List.length_cons, List.length_take_of_le (quotedLength_le _ _)]

end ReadsWord

/-! ## Words inside a text -/

/-- The words that follow a word, and where they are found. -/
theorem ReadsWord.exists_behind {s first rest : List Char} (h : ReadsWord s first rest) {i j : Nat}
    {word : List Char} {front back : List (Nat × List Char)}
    (heq : wordsFrom i s = front ++ (j, word) :: back)
    (ih : ∀ front, wordsFrom (i + first.length) rest = front ++ (j, word) :: back →
      ∃ a b tail, rest = a ++ b ∧ j = i + first.length + a.length ∧ ReadsWord b word tail ∧
        back = wordsFrom (j + word.length) tail) :
    ∃ a b tail, s = a ++ b ∧ j = i + a.length ∧ ReadsWord b word tail ∧
      back = wordsFrom (j + word.length) tail := by
  rw [h.wordsFrom_eq] at heq
  cases front with
  | nil =>
    obtain ⟨hfirst, hback⟩ := List.cons.inj heq
    obtain ⟨rfl, rfl⟩ := Prod.mk.inj hfirst
    exact ⟨[], s, rest, rfl, rfl, h, hback.symm⟩
  | cons _ front =>
    obtain ⟨a, b, tail, rfl, hj, hreads, hback⟩ := ih front (List.cons.inj heq).2
    refine ⟨first ++ a, b, tail, ?_, ?_, hreads, hback⟩
    · rw [h.eq_append, List.append_assoc]
    · rw [hj, List.length_append, Nat.add_assoc]

/-- **Where a word is found**, it is read as the first word of what is left of the text. -/
theorem exists_of_wordsFrom_eq {i j : Nat} {s word : List Char}
    {front back : List (Nat × List Char)} (h : wordsFrom i s = front ++ (j, word) :: back) :
    ∃ a b tail, s = a ++ b ∧ j = i + a.length ∧ ReadsWord b word tail ∧
      back = wordsFrom (j + word.length) tail := by
  fun_induction wordsFrom i s generalizing front
  case case1 => simp at h
  case case2 i rest hquote length others ih =>
    have hlength : ('"' :: rest.take length).length = length + 1 := by
      rw [List.length_cons, List.length_take_of_le (quotedLength_le _ _)]
    refine (ReadsWord.quoted rest).exists_behind ((wordsFrom_quoted i rest).trans h) fun front => ?_
    rw [hlength]
    exact ih
  case case3 i c rest hquote length others hc ih =>
    obtain ⟨a, b, tail, hparts, hj, hreads, hback⟩ := ih h
    refine ⟨c :: rest.take length ++ a, b, tail, ?_, ?_, hreads, hback⟩
    · rw [List.append_assoc, ← hparts, List.cons_append, List.take_append_drop]
    · rw [hj, List.length_append, List.length_cons, List.length_take_of_le (quotedLength_le _ _),
        Nat.add_assoc]
  case case4 i c rest hquote hc tail ih =>
    exact (readsWord_run hc rest).exists_behind ((wordsFrom_run hc i rest).trans h) fun front => ih
  case case5 i c rest hquote hc ih =>
    obtain ⟨a, b, tail, rfl, hj, hreads, hback⟩ := ih h
    refine ⟨c :: a, b, tail, rfl, ?_, hreads, hback⟩
    rw [hj, List.length_cons]
    omega

/-! ## Words and quotes -/

/-- The place is in the text, whose own place is `i` and which stands behind `left`. A quote that
stands there does not stand right behind another one. -/
def StandsApart (left : Option Char) (i : Nat) (s : List Char) (place : Nat) : Prop :=
  ∃ a b, s = a ++ b ∧ place = i + a.length ∧
    (b.head? = some '"' → a.getLast?.or left ≠ some '"')

theorem StandsApart.here {left : Option Char} {s : List Char} (i : Nat)
    (h : s.head? = some '"' → left ≠ some '"') : StandsApart left i s i :=
  ⟨[], s, rfl, rfl, h⟩

theorem StandsApart.behind {left : Option Char} {i place : Nat} {a s : List Char} {last : Char}
    (hlast : a.getLast? = some last) (h : StandsApart (some last) (i + a.length) s place) :
    StandsApart left i (a ++ s) place := by
  obtain ⟨a', b, rfl, rfl, hquote⟩ := h
  refine ⟨a ++ a', b, (List.append_assoc a a' b).symm, ?_, ?_⟩
  · rw [List.length_append, Nat.add_assoc]
  · rw [List.getLast?_append, hlast, Option.or_assoc, Option.some_or]
    exact hquote

/-- The words behind a quoted section. -/
theorem apart_of_mem_behindQuotes {left : Option Char} {c : Char} (hc : isQuote c = true) {i : Nat}
    {rest : List Char} {word : Nat × List Char}
    (hword : word ∈ wordsFrom (i + (quotedLength c rest + 1)) (rest.drop (quotedLength c rest)))
    (ih : ∀ {left : Option Char},
      ((rest.drop (quotedLength c rest)).head? = some '"' → left ≠ some '"') →
      StandsApart left (i + (quotedLength c rest + 1)) (rest.drop (quotedLength c rest)) word.1) :
    StandsApart left i (c :: rest) word.1 := by
  have hne : rest.drop (quotedLength c rest) ≠ [] := by
    intro hnil
    rw [hnil, wordsFrom_nil] at hword
    cases hword
  obtain ⟨hcloses, hhead⟩ := closesQuote_of_drop_ne_nil hc hne
  have hlength : (c :: rest.take (quotedLength c rest)).length = quotedLength c rest + 1 := by
    rw [List.length_cons, List.length_take_of_le (quotedLength_le _ _)]
  have hlast : (c :: rest.take (quotedLength c rest)).getLast? = some c := by
    rw [List.getLast?_cons, hcloses.last]
    rfl
  have hparts : c :: rest.take (quotedLength c rest) ++ rest.drop (quotedLength c rest) =
      c :: rest := by
    rw [List.cons_append, List.take_append_drop]
  have hbehind := ih fun hquote hsame => hhead (hquote.trans hsame.symm)
  rw [← hlength] at hbehind
  rw [← hparts]
  exact hbehind.behind hlast

/-- **Quoted words stand apart**: a quote right behind a quoted section would not begin a word, but
go on with the section. -/
theorem apart_of_mem_wordsFrom (left : Option Char) (i : Nat) (s : List Char)
    (hleft : s.head? = some '"' → left ≠ some '"') :
    ∀ word ∈ wordsFrom i s, StandsApart left i s word.1 := by
  fun_induction wordsFrom i s generalizing left
  case case1 =>
    intro word hword
    cases hword
  case case2 i rest hquote length others ih =>
    intro word hword
    rcases List.mem_cons.mp hword with rfl | hword
    · exact .here i hleft
    · exact apart_of_mem_behindQuotes hquote hword fun hleft => ih _ hleft word hword
  case case3 i c rest hquote length others _ ih =>
    intro word hword
    exact apart_of_mem_behindQuotes hquote hword fun hleft => ih _ hleft word hword
  case case4 i c rest hquote hc tail ih =>
    intro word hword
    rcases List.mem_cons.mp hword with rfl | hword
    · exact .here i hleft
    · obtain ⟨last, hlast⟩ : ∃ last, (c :: tail).getLast? = some last :=
        Option.ne_none_iff_exists'.mp (by simp)
      -- the run does not end in a quote
      have hrun : ∀ d ∈ c :: tail, isWordChar d = true :=
        List.forall_mem_cons.mpr ⟨hc, fun d hd => List.all_eq_true.mp List.all_takeWhile d hd⟩
      have hother : some last ≠ some '"' := fun hsame =>
        ne_of_isWordChar (hrun last (List.mem_of_getLast? hlast)) rfl (Option.some.inj hsame)
      have hbehind :
          StandsApart (some last) (i + (c :: tail).length) (rest.dropWhile isWordChar) word.1 :=
        ih _ (fun _ => hother) word hword
      have hparts : c :: tail ++ rest.dropWhile isWordChar = c :: rest := by
        rw [List.cons_append, List.takeWhile_append_dropWhile]
      rw [← hparts]
      exact hbehind.behind hlast
  case case5 i c rest hquote hc ih =>
    intro word hword
    have hother : some c ≠ some '"' := by
      rintro ⟨⟩
      exact hquote rfl
    have hbehind : StandsApart (some c) (i + [c].length) rest word.1 :=
      ih _ (fun _ => hother) word hword
    exact hbehind.behind rfl

end Text

namespace Source

open Text

/-! ## Declarations -/

/-- What begins a declaration is looked for word by word. -/
theorem exists_append_of_declarationStart? {words : List (Nat × List Char)} {i : Nat} {kind : Kind}
    (h : declarationStart? words = some (i, kind)) :
    ∃ front word back, words = front ++ (i, word) :: back ∧
      declarationStart? ((i, word) :: back) = some (i, kind) := by
  induction words with
  | nil => cases h
  | cons first rest ih =>
    have hstart := h
    have hhere : first.1 = i → ∃ front word back, first :: rest = front ++ (i, word) :: back ∧
        declarationStart? ((i, word) :: back) = some (i, kind) := by
      rintro rfl
      exact ⟨[], first.2, rest, rfl, hstart⟩
    rw [declarationStart?] at h
    split_ifs at h
    · exact hhere (Prod.mk.inj (Option.some.inj h)).1
    · exact hhere (Prod.mk.inj (Option.some.inj h)).1
    · exact hhere (Prod.mk.inj (Option.some.inj h)).1
    · obtain ⟨front, word, back, rfl, hback⟩ := ih h
      exact ⟨first :: front, word, back, rfl, hback⟩

/-- What begins a declaration does so wherever the text begins. -/
theorem declarationStart?_map_add (k : Nat) (words : List (Nat × List Char)) :
    declarationStart? (words.map fun (j, word) => (k + j, word)) =
      (declarationStart? words).map fun (j, kind) => (k + j, kind) := by
  induction words with
  | nil => rfl
  | cons first rest ih =>
    have hnext : ((rest.map fun (j, word) => (k + j, word)).head?.any
        fun next => sameLetters next.2 Kind.constant.keyword.toList) =
          rest.head?.any fun next => sameLetters next.2 Kind.constant.keyword.toList := by
      cases rest <;> rfl
    simp only [List.map_cons, declarationStart?, hnext, ih]
    split_ifs <;> rfl

/-- **A declaration begins with a word** outside quotes, which does not go on with a quoted section.
Cut off in front of it, the text begins with the same declaration. -/
theorem exists_of_declarationStart? {s : List Char} {i : Nat} {kind : Kind}
    (h : declarationStart? (words s) = some (i, kind)) :
    ∃ a b word rest, s = a ++ b ∧ a.length = i ∧ (Nesting.start.after a).quote = none ∧
      ReadsWord b word rest ∧ declarationStart? (words b) = some (0, kind) ∧
      (b.head? = some '"' → a.getLast? ≠ some '"') := by
  obtain ⟨front, word, back, hwords, hstart⟩ := exists_append_of_declarationStart? h
  obtain ⟨a, b, rest, hparts, hi, hreads, hback⟩ := exists_of_wordsFrom_eq hwords
  rw [Nat.zero_add] at hi
  have hmem : (i, word) ∈ wordsFrom 0 s := by
    rw [← words, hwords]
    exact List.mem_append_right front List.mem_cons_self
  have hquote : (Nesting.start.after a).quote = none := by
    obtain ⟨a', b', hparts', hi', hquote⟩ := outside_of_mem_wordsFrom (n := .start) rfl 0 s _ hmem
    rw [hparts] at hparts'
    obtain ⟨rfl, -⟩ := List.append_inj hparts' (by omega)
    exact hquote
  have hapart : b.head? = some '"' → a.getLast? ≠ some '"' := by
    obtain ⟨a', b', hparts', hi', hapart⟩ := apart_of_mem_wordsFrom none 0 s (by simp) _ hmem
    rw [hparts] at hparts'
    obtain ⟨rfl, rfl⟩ := List.append_inj hparts' (by omega)
    rwa [Option.or_none] at hapart
  refine ⟨a, b, word, rest, hparts, hi.symm, hquote, hreads, ?_, hapart⟩
  have hmap : (i, word) :: back = (words b).map fun (j, word) => (i + j, word) := by
    rw [words, ← wordsFrom_add, Nat.add_zero, hreads.wordsFrom_eq, hback]
  rw [hmap, declarationStart?_map_add] at hstart
  obtain ⟨⟨j, found⟩, hfound, heq⟩ := Option.map_eq_some_iff.mp hstart
  obtain ⟨hj, rfl⟩ := Prod.mk.inj heq
  obtain rfl : j = 0 := by omega
  exact hfound

end Source

end StoredRoutine
