import StoredRoutine.Proofs.Bytewise.Statements
import StoredRoutine.Proofs.Bytewise.Walk
import StoredRoutine.Proofs.Source.SingleLine

/-!
# Three readers of quotes

Three loops pass over quoted sections: the one that finds words and the walk over delimiters by
bytes, the scanner by characters. A text is cut into `lexemes`, one quoted section, one run of word
characters or one other character each, and from these the words are told. The walk visits the bytes
of all lexemes but the quoted sections, and the scanner takes their characters one by one, unless a
comment begins among them (`lexersAgree`).

All that is outside quotes is told by two equations, of a character that is no quote and of a quoted
section (`openFrom_char`, `openFrom_section`), and each of the loops satisfies both.
-/

namespace StoredRoutine

namespace Text

open Source (byteLength)

/-! ## Lexemes -/

/-- A part of a text: a quoted section, which is the quote that opens it and what follows up to its
end, a run of word characters, or any other character. -/
inductive Lexeme where
  | quoted (quote : Char) (behind : List Char)
  | run (word : List Char)
  | other (c : Char)
  deriving DecidableEq, Repr

/-- The lexeme as it is written. -/
def Lexeme.text : Lexeme → List Char
  | quoted quote behind => quote :: behind
  | run word => word
  | other c => [c]

/-- The lexemes of a text, in order. -/
def lexemes (s : List Char) : List Lexeme :=
  match s with
  | [] => []
  | c :: rest =>
    if isQuote c then
      .quoted c (rest.take (quotedLength c rest)) :: lexemes (rest.drop (quotedLength c rest))
    else if isWordChar c then
      .run (c :: rest.takeWhile isWordChar) :: lexemes (rest.dropWhile isWordChar)
    else .other c :: lexemes rest
termination_by s.length
decreasing_by
  all_goals simp only [List.length_cons, List.length_drop]
  · omega
  · exact Nat.lt_succ_of_le (length_dropWhile_le _ _)
  · omega

/-- The words among lexemes, each with its offset, where the first lexeme has the given offset. -/
def wordsOf (offset : Nat) : List Lexeme → List (Nat × List Char)
  | [] => []
  | l :: rest =>
    let others := wordsOf (offset + byteLength l.text) rest
    match l with
    | .quoted quote behind => if quote = '"' then (offset, quote :: behind) :: others else others
    | .run word => (offset, word) :: others
    | .other _ => others

/-- The characters of a text with their offsets. -/
def charsAt (offset : Nat) : List Char → List (Nat × Char)
  | [] => []
  | c :: rest => (offset, c) :: charsAt (offset + c.utf8Size) rest

/-- The characters of all lexemes but the quoted sections, with their offsets. -/
def openFrom (offset : Nat) : List Lexeme → List (Nat × Char)
  | [] => []
  | l :: rest =>
    let others := openFrom (offset + byteLength l.text) rest
    match l with
    | .quoted _ _ => others
    | .run word => charsAt offset word ++ others
    | .other c => (offset, c) :: others

@[simp] theorem lexemes_nil : lexemes [] = [] := by rw [lexemes]

theorem lexemes_quote {c : Char} (hquote : isQuote c = true) (s : List Char) :
    lexemes (c :: s) =
      .quoted c (s.take (quotedLength c s)) :: lexemes (s.drop (quotedLength c s)) := by
  rw [lexemes, if_pos hquote]

theorem lexemes_word {c : Char} (hc : isWordChar c = true) (s : List Char) :
    lexemes (c :: s) = .run (c :: s.takeWhile isWordChar) :: lexemes (s.dropWhile isWordChar) := by
  have hquote : ¬ isQuote c = true := by simp [isQuote_of_isWordChar hc]
  rw [lexemes, if_neg hquote, if_pos hc]

theorem lexemes_other {c : Char} (hquote : isQuote c = false) (hc : isWordChar c = false)
    (s : List Char) : lexemes (c :: s) = .other c :: lexemes s := by
  rw [lexemes, hquote, hc]
  rfl

/-- **Nothing is left out** of a text that is cut into lexemes. -/
theorem flatMap_text_lexemes (s : List Char) : (lexemes s).flatMap Lexeme.text = s := by
  fun_induction lexemes s with
  | case1 => rfl
  | case2 c rest hquote ih =>
    rw [List.flatMap_cons, ih, Lexeme.text, List.cons_append, List.take_append_drop]
  | case3 c rest hquote hc ih =>
    rw [List.flatMap_cons, ih, Lexeme.text, List.cons_append, List.takeWhile_append_dropWhile]
  | case4 c rest hquote hc ih =>
    rw [List.flatMap_cons, ih]
    rfl

/-- The lexemes of a text from a place between two of them on. -/
theorem eq_lexemes_of_append {s : List Char} {front back : List Lexeme}
    (h : lexemes s = front ++ back) :
    back = lexemes (s.drop (front.flatMap Lexeme.text).length) := by
  induction front generalizing s with
  | nil => exact h.symm
  | cons l front ih =>
    have next {t : List Char} (text : s = l.text ++ t) (rest : lexemes t = front ++ back) :
        back = lexemes (s.drop ((l :: front).flatMap Lexeme.text).length) := by
      rw [ih rest, text, List.flatMap_cons, List.length_append, ← List.drop_drop, List.drop_left]
    cases s with
    | nil =>
      rw [lexemes_nil] at h
      cases h
    | cons c s =>
      by_cases hquote : isQuote c = true
      · rw [lexemes_quote hquote] at h
        obtain ⟨rfl, rest⟩ := List.cons.inj h
        exact next (by rw [Lexeme.text, List.cons_append, List.take_append_drop]) rest
      · by_cases hc : isWordChar c = true
        · rw [lexemes_word hc] at h
          obtain ⟨rfl, rest⟩ := List.cons.inj h
          exact next (by rw [Lexeme.text, List.cons_append, List.takeWhile_append_dropWhile]) rest
        · rw [lexemes_other (eq_false_of_ne_true hquote) (eq_false_of_ne_true hc)] at h
          obtain ⟨rfl, rest⟩ := List.cons.inj h
          exact next rfl rest

/-! ## What is outside quotes -/

theorem openFrom_section {c : Char} (hquote : isQuote c = true) (offset : Nat) (s : List Char) :
    openFrom offset (lexemes (c :: s)) =
      openFrom (offset + byteLength (c :: s.take (quotedLength c s)))
        (lexemes (s.drop (quotedLength c s))) := by
  rw [lexemes_quote hquote]
  rfl

/-- A run is read character by character as well. -/
theorem openFrom_run (offset : Nat) (s : List Char) :
    charsAt offset (s.takeWhile isWordChar) ++
        openFrom (offset + byteLength (s.takeWhile isWordChar))
          (lexemes (s.dropWhile isWordChar)) =
      openFrom offset (lexemes s) := by
  cases s with
  | nil => rfl
  | cons c s =>
    by_cases hc : isWordChar c = true
    · rw [List.takeWhile_cons_of_pos hc, List.dropWhile_cons_of_pos hc, lexemes_word hc]
      rfl
    · rw [List.takeWhile_cons_of_neg hc, List.dropWhile_cons_of_neg hc]
      rfl

theorem openFrom_char {c : Char} (hquote : isQuote c = false) (offset : Nat) (s : List Char) :
    openFrom offset (lexemes (c :: s)) =
      (offset, c) :: openFrom (offset + c.utf8Size) (lexemes s) := by
  by_cases hc : isWordChar c = true
  · rw [lexemes_word hc, ← openFrom_run, Nat.add_assoc]
    rfl
  · rw [lexemes_other hquote (eq_false_of_ne_true hc)]
    rfl

/-- **No comment begins in the open** in the text, if it is read from the given nesting on. -/
def OpensNoComment (n : Nesting) (s : List Char) : Prop :=
  ∀ a b, s = a ++ b → (n.after a).quote = none → ¬ ['-', '-'] <+: b ∧ ¬ ['/', '*'] <+: b

theorem OpensNoComment.right {n : Nesting} {a b : List Char} (h : OpensNoComment n (a ++ b)) :
    OpensNoComment (n.after a) b := by
  intro front back split hquote
  refine h (a ++ front) back ?_ ?_
  · rw [split, List.append_assoc]
  · rw [Nesting.after_append]
    exact hquote

/-- What has to be looked at is one place after the other. -/
theorem opensNoComment_cons {n : Nesting} {c : Char} {s : List Char} :
    OpensNoComment n (c :: s) ↔
      (n.quote = none → ¬ ['-', '-'] <+: c :: s ∧ ¬ ['/', '*'] <+: c :: s) ∧
        OpensNoComment (n.step c) s := by
  constructor
  · intro h
    exact ⟨h [] (c :: s) rfl, OpensNoComment.right (a := [c]) h⟩
  · rintro ⟨here, others⟩ a b split hquote
    cases a with
    | nil =>
      obtain rfl : c :: s = b := split
      exact here hquote
    | cons d a =>
      obtain ⟨rfl, rest⟩ := List.cons.inj split
      exact others a b rest hquote

theorem opensNoComment_nil (n : Nesting) : OpensNoComment n [] := by
  intro a b split _
  obtain ⟨rfl, rfl⟩ := List.append_eq_nil_iff.1 split.symm
  exact ⟨by decide, by decide⟩

instance decidableOpensNoComment : (n : Nesting) → (s : List Char) → Decidable (OpensNoComment n s)
  | n, [] => isTrue (opensNoComment_nil n)
  | n, c :: s =>
    have := decidableOpensNoComment (n.step c) s
    decidable_of_iff _ opensNoComment_cons.symm

end Text

namespace Bytewise

open Source (byteLength byteLength_append Position)
open Text (Nesting Lexeme lexemes wordsOf openFrom openFrom_char openFrom_section OpensNoComment
  isQuote isWordChar quotedLength quotedLength_le)

/-! ## Words -/

/-- **Words are told from lexemes.** -/
theorem map_located_wordsFrom (a t : List Char) :
    (Text.wordsFrom a.length t).map (located (a ++ t)) = wordsOf (byteLength a) (lexemes t) := by
  induction left : t.length using Nat.strongRecOn generalizing a t with
  | ind n ih =>
    subst left
    cases t with
    | nil => rw [Text.wordsFrom_nil, Text.lexemes_nil]; rfl
    | cons c t =>
      -- what follows the lexeme
      have others {front back : List Char} (split : t = front ++ back) :
          (Text.wordsFrom (a.length + (front.length + 1)) back).map (located (a ++ c :: t))
            = wordsOf (byteLength a + byteLength (c :: front)) (lexemes back) := by
        have behind := ih back.length (by rw [split, List.length_cons, List.length_append]; omega)
          (a ++ c :: front) back rfl
        rwa [List.append_assoc, List.cons_append, ← split, List.length_append, List.length_cons,
          byteLength_append] at behind
      by_cases hquote : isQuote c = true
      · have size : (t.take (quotedLength c t)).length = quotedLength c t :=
          List.length_take_of_le (quotedLength_le c t)
        have behind := others (List.take_append_drop (quotedLength c t) t).symm
        rw [size] at behind
        rw [Text.lexemes_quote hquote, wordsOf, Lexeme.text, ← behind]
        by_cases double : c = '"'
        · subst double
          rw [Text.wordsFrom_quoted, List.map_cons, located_length]
          rfl
        · rw [Text.wordsFrom_literal hquote double]
          exact (if_neg double).symm
      · have outside : isQuote c = false := eq_false_of_ne_true hquote
        by_cases hword : isWordChar c = true
        · rw [Text.wordsFrom_run hword, List.map_cons, located_length,
            others List.takeWhile_append_dropWhile.symm, Text.lexemes_word hword]
          rfl
        · have plain : isWordChar c = false := eq_false_of_ne_true hword
          rw [Text.wordsFrom_cons outside plain, Text.lexemes_other outside plain]
          exact others (List.nil_append t).symm

theorem words_eq_wordsOf (s : List Char) : words s = .ok (wordsOf 0 (lexemes s)) := by
  rw [words_eq]
  exact congrArg Except.ok (map_located_wordsFrom [] s)

/-- The loop that finds words passes over each quoted section as a whole. -/
theorem quotedFrom_of_lexemes {s : List Char} {front back : List Lexeme} {quote : Char}
    {behind : List Char} (h : lexemes s = front ++ .quoted quote behind :: back) :
    quotedFrom (bytes s) (byteLength (front.flatMap Lexeme.text))
      = .ok (byteLength (front.flatMap Lexeme.text) + byteLength (quote :: behind)) := by
  have text := Text.flatMap_text_lexemes s
  have here := Text.eq_lexemes_of_append h
  rw [h, List.flatMap_append, List.flatMap_cons] at text
  rw [← text, List.drop_left] at here
  rw [← text]
  -- the lexeme is what is found behind its quote
  rw [Lexeme.text, List.cons_append] at here ⊢
  by_cases hquote : isQuote quote = true
  · rw [Text.lexemes_quote hquote] at here
    have same := (Lexeme.quoted.inj (List.cons.inj here).1).2
    have stop := quotedFrom_bytes (ascii_of_isQuote hquote) (front.flatMap Lexeme.text)
      (behind ++ back.flatMap Lexeme.text)
    rwa [← same] at stop
  · by_cases hc : isWordChar quote = true
    · rw [Text.lexemes_word hc] at here
      cases here
    · rw [Text.lexemes_other (eq_false_of_ne_true hquote) (eq_false_of_ne_true hc)] at here
      cases here

/-! ## The walk -/

/-- The offsets of the bytes of a character at an offset. -/
def offsetsOf (place : Nat × Char) : List Nat := List.range' place.1 place.2.utf8Size

theorem map_fst_bytesOf (offset : Nat) (c : Char) (depth : Int) :
    (Delimited.bytesOf offset c depth).map Prod.fst = offsetsOf (offset, c) := by
  rw [bytesOf_eq, List.map_map, offsetsOf, ← String.length_utf8EncodeChar,
    ← List.zipIdx_map_snd]
  rfl

/-- **The walk visits what is outside quotes**, byte by byte. -/
theorem map_fst_walkFrom {n : Nesting} {s : List Char} (hn : s ≠ [] → n.quote = none)
    (offset : Nat) :
    (Delimited.walkFrom offset n s).map Prod.fst
      = (openFrom offset (lexemes s)).flatMap offsetsOf := by
  induction left : s.length using Nat.strongRecOn generalizing n s offset with
  | ind k ih =>
    subst left
    cases s with
    | nil => rw [Text.lexemes_nil]; rfl
    | cons c s =>
      have code : n.quote = none := hn (List.cons_ne_nil c s)
      by_cases hquote : isQuote c = true
      · have hidden : n.depthAt? c = none := by simp [Nesting.depthAt?, hquote]
        have opened : (n.step c).quote = some c := by
          rw [Nesting.quote_step_of_none code, if_pos hquote]
        have behind := ih (s.drop (quotedLength c s)).length
          (by rw [List.length_drop, List.length_cons]; omega)
          (Source.quote_after_quotedLength hquote opened)
          (offset + byteLength (c :: s.take (quotedLength c s))) rfl
        rw [walkFrom_hidden hidden, walkFrom_quoted hquote opened, openFrom_section hquote, ← behind,
          Source.byteLength_cons, Nat.add_assoc]
      · have outside : isQuote c = false := eq_false_of_ne_true hquote
        have next : (n.step c).quote = none := by
          rw [Nesting.quote_step_of_none code, if_neg hquote]
        have shown : (n.depthAt? c).isSome = true := by
          rw [← Option.not_isNone, Source.isNone_depthAt?, code, outside]
          rfl
        obtain ⟨depth, hdepth⟩ := Option.isSome_iff_exists.1 shown
        rw [walkFrom_open hdepth, List.map_append, map_fst_bytesOf,
          ih s.length (Nat.lt_succ_self _) (fun _ => next) (offset + c.utf8Size) rfl,
          openFrom_char outside, List.flatMap_cons]

/-! ## The scanner -/

namespace Scanner

/-- **A quoted section is copied to its end**, where the other loops find it, too. -/
theorem exists_copyQuoted_eq (quote : Char) (s : List Char) (p : Position) (into : Buffer) :
    ∃ copied, copyQuoted quote ⟨s, p⟩ into
      = .ok (⟨s.drop (quotedLength quote s), p.after (s.take (quotedLength quote s))⟩, copied) := by
  fun_induction quotedLength quote s generalizing p into with
  | case1 => exact ⟨into, by rw [copyQuoted]; rfl⟩
  | case2 c =>
    refine ⟨into.push c p, ?_⟩
    rw [copyQuoted]
    dsimp only
    rw [follow_eq (advance_cons c [] p)]
    split_ifs
    · rfl
    · rw [copyQuoted]
      rfl
  | case3 c d rest hc ih =>
    obtain ⟨copied, found⟩ := ih (p.next c) (into.push c p)
    refine ⟨copied, ?_⟩
    rw [copyQuoted]
    dsimp only
    rw [follow_eq (advance_cons c (d :: rest) p), if_neg hc, found, Nat.add_comm 1,
      List.drop_succ_cons, List.take_succ_cons, Position.after_cons]
  | case4 c rest hc ih =>
    obtain rfl := Decidable.of_not_not hc
    obtain ⟨copied, found⟩ := ih ((p.next c).next c) ((into.push c p).push c (p.next c))
    refine ⟨copied, ?_⟩
    rw [copyQuoted]
    dsimp only
    rw [follow_eq (advance_cons c (c :: rest) p), if_pos rfl]
    dsimp only
    rw [if_pos rfl, follow_eq (advance_cons c rest (p.next c)), found, Nat.add_comm 2,
      List.drop_succ_cons, List.drop_succ_cons, List.take_succ_cons, List.take_succ_cons,
      Position.after_cons, Position.after_cons]
  | case5 c d rest hc hd =>
    obtain rfl := Decidable.of_not_not hc
    refine ⟨into.push c p, ?_⟩
    rw [copyQuoted]
    dsimp only
    rw [follow_eq (advance_cons c (d :: rest) p), if_pos rfl]
    dsimp only
    rw [if_neg hd]
    rfl

/-- Where no comment begins the scanner goes on behind a quoted section or behind one character. -/
theorem exists_copyNext_eq {c : Char} {s : List Char} (noLine : ¬ ['-', '-'] <+: c :: s)
    (noBlock : ¬ ['/', '*'] <+: c :: s) (p : Position) (into : Buffer) :
    ∃ copied, copyNext ⟨c :: s, p⟩ into = .ok
      (if isQuote c then
        ⟨s.drop (quotedLength c s), (p.next c).after (s.take (quotedLength c s))⟩
      else ⟨s, p.next c⟩, copied) := by
  have line : ¬ (c = '-' ∧ s.head? = some '-') := by
    rintro ⟨rfl, dash⟩
    obtain ⟨u, rfl⟩ := List.head?_eq_some_iff.1 dash
    exact noLine ⟨u, rfl⟩
  have block : ¬ (c = '/' ∧ s.head? = some '*') := by
    rintro ⟨rfl, star⟩
    obtain ⟨u, rfl⟩ := List.head?_eq_some_iff.1 star
    exact noBlock ⟨u, rfl⟩
  rw [copyNext_code line block]
  split_ifs
  · exact exists_copyQuoted_eq c s (p.next c) _
  · exact ⟨_, rfl⟩
  · exact ⟨_, rfl⟩

/-- The characters that the scanner takes outside of quoted sections, with their offsets. -/
def takenFrom (sc : Scanner) : Checked (List (Nat × Char)) :=
  match _h : sc.rest with
  | [] => return []
  | c :: _ =>
    follow (copyNext sc .empty) fun copied _found => do
      let others ← copied.1.takenFrom
      return if isQuote c then others else (sc.place.offset, c) :: others
termination_by sc.rest.length
decreasing_by exact lt_of_copyNext _h _found

theorem takenFrom_cons {c : Char} {t : List Char} {p : Position} {copied : Scanner × Buffer}
    {others : List (Nat × Char)} (found : copyNext ⟨c :: t, p⟩ .empty = .ok copied)
    (behind : copied.1.takenFrom = .ok others) :
    takenFrom ⟨c :: t, p⟩ = .ok (if isQuote c then others else (p.offset, c) :: others) := by
  rw [takenFrom]
  dsimp only
  rw [follow_eq found, behind]
  rfl

/-- **The scanner takes what is outside quotes**, character by character, where no comment
begins. -/
theorem takenFrom_eq {n : Nesting} {s : List Char} (hn : s ≠ [] → n.quote = none)
    (h : OpensNoComment n s) (p : Position) :
    takenFrom ⟨s, p⟩ = .ok (openFrom p.offset (lexemes s)) := by
  induction left : s.length using Nat.strongRecOn generalizing n s p with
  | ind k ih =>
    subst left
    cases s with
    | nil => rw [takenFrom, Text.lexemes_nil]; rfl
    | cons c s =>
      have code : n.quote = none := hn (List.cons_ne_nil c s)
      obtain ⟨noLine, noBlock⟩ := h [] (c :: s) rfl code
      obtain ⟨copied, found⟩ := exists_copyNext_eq noLine noBlock p .empty
      by_cases hquote : isQuote c = true
      · have opened : (n.step c).quote = some c := by
          rw [Nesting.quote_step_of_none code, if_pos hquote]
        have split : s = s.take (quotedLength c s) ++ s.drop (quotedLength c s) :=
          (List.take_append_drop _ s).symm
        rw [split, ← List.cons_append] at h
        have behind := ih (s.drop (quotedLength c s)).length
          (by rw [List.length_drop, List.length_cons]; omega)
          (Source.quote_after_quotedLength hquote opened) h.right
          ((p.next c).after (s.take (quotedLength c s))) rfl
        rw [if_pos hquote] at found
        rw [takenFrom_cons found behind, if_pos hquote, openFrom_section hquote,
          Position.offset_after, Position.offset_next, Source.byteLength_cons, Nat.add_assoc]
      · have next : (n.step c).quote = none := by
          rw [Nesting.quote_step_of_none code, if_neg hquote]
        have behind := ih s.length (Nat.lt_succ_self _) (fun _ => next)
          (OpensNoComment.right (a := [c]) h) (p.next c) rfl
        rw [if_neg hquote] at found
        rw [takenFrom_cons found behind, if_neg hquote, openFrom_char (eq_false_of_ne_true hquote),
          Position.offset_next]

end Scanner

/-! ## Main statement -/

/-- **The readers agree** on what is outside the quoted sections of a text. -/
structure LexersAgree (s : List Char) : Prop where
  /-- The words are the words among the lexemes, so nothing but their quoted sections counts as
  quoted. -/
  words : words s = .ok (wordsOf 0 (lexemes s))
  /-- Each quoted section ends where the loop over words finds its end. -/
  sections : ∀ front quote behind back, lexemes s = front ++ .quoted quote behind :: back →
    quotedFrom (bytes s) (byteLength (front.flatMap Lexeme.text))
      = .ok (byteLength (front.flatMap Lexeme.text) + byteLength (quote :: behind))
  /-- The walk visits the bytes of all other lexemes, in order. -/
  walk : (fun visited => visited.1.map Prod.fst) <$> walk s
    = .ok ((openFrom 0 (lexemes s)).flatMap offsetsOf)
  /-- The scanner takes their characters, in order. -/
  scanner : (Scanner.start s).takenFrom = .ok (openFrom 0 (lexemes s))

theorem LexersAgree.of_opensNoComment {s : List Char} (h : OpensNoComment .start s) :
    LexersAgree s where
  words := words_eq_wordsOf s
  sections _ _ _ _ := quotedFrom_of_lexemes
  walk := by
    rw [walk_eq]
    exact congrArg Except.ok (map_fst_walkFrom (fun _ => rfl) 0)
  scanner := Scanner.takenFrom_eq (fun _ => rfl) h .start

/-- **The three readers of quotes agree** on every text in which no comment begins in the open, and
so on the text of every fragment, whichever quotes it has, doubled, inside of each other, at its very
end or never closed. -/
theorem lexersAgree :
    (∀ s, OpensNoComment .start s → LexersAgree s) ∧
      ∀ source, ∀ f ∈ Source.scan source, LexersAgree f.text.toList :=
  ⟨fun _ h => .of_opensNoComment h,
    fun _ _ hf => .of_opensNoComment (Source.isSingleLine_of_mem_scan hf).comments⟩

/-- A text with a doubled quote, with quotes of either kind inside of the other one, two of them
doubled, and with a section that is never closed; and a fragment that ends in a quote right behind
a doubled one. -/
theorem lexersAgree_of_odd_quotes :
    let s := "a'it''s \"' é\"--'\"\"\"/'*".toList
    let source := "X constant varchar2 := 'a''\"';Y constant c := 'é'''"
    let f : Source.Fragment := ⟨.constant, "Y constant c := 'é'''", ⟨30, 52, 1, 31⟩, false⟩
    (Text.OpensNoComment .start s ∧ LexersAgree s) ∧
      lexemes s = [.run ['a'], .quoted '\'' "it''s \"'".toList, .other ' ', .run ['é'],
        .quoted '"' "--'\"\"\"".toList, .other '/', .quoted '\'' ['*']] ∧
      openFrom 0 (lexemes s) = [(0, 'a'), (10, ' '), (11, 'é'), (20, '/')] ∧
      f ∈ Source.scan source ∧ LexersAgree f.text.toList ∧
      (openFrom 0 (lexemes f.text.toList)).map Prod.snd = "Y constant c := ".toList := by
  intro s source f
  have hs : Text.OpensNoComment .start s := by decide +kernel
  have hf : f ∈ Source.scan source := by decide +kernel
  exact ⟨⟨hs, lexersAgree.1 s hs⟩, by decide +kernel, by decide +kernel, hf,
    lexersAgree.2 source f hf, by decide +kernel⟩

end Bytewise

end StoredRoutine
