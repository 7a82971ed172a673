import StoredRoutine.Proofs.Text.Find

/-!
# Texts on one line

What a declaration is written with. A text is `IsOneLine` if it is closed and in normal form:
outside quotes its blanks are single spaces between other characters, and no comment begins. Such
texts can be put side by side (`IsOneLine.append`), as long as no comment begins where they meet,
and in parentheses (`IsOneLine.group`).

Names are `IsName`, and types and expressions are `IsPhrase`.
-/

namespace StoredRoutine.Text

open Nesting

/-! ## Normal form -/

/-- In normal form a blank in the open is a space with another character behind it, and nothing in
the open begins a comment. -/
def isTidyAt (c : Char) (rest : List Char) : Bool :=
  if isBlank c then c == ' ' && rest.head?.any (!isBlank ·)
  else !(c == '-' && rest.head? == some '-') && !(c == '/' && rest.head? == some '*')

/-- The text is closed and in normal form. -/
structure IsOneLine (s : List Char) : Prop where
  closed : IsClosed s
  tidy : everyOpen (fun _ => isTidyAt) .start s = true

/-- A name that needs no quotes. -/
structure IsName (s : List Char) : Prop where
  ne_nil : s ≠ []
  chars : ∀ c ∈ s, isWordChar c = true ∧ isBlank c = false
  head : s.head?.any Char.isDigit = false

/-- The text of a type or of an expression. -/
structure IsPhrase (s : List Char) : Prop extends IsOneLine s where
  ne_nil : s ≠ []
  trimmed : IsTrimmed s

instance (s : List Char) : Decidable (IsOneLine s) :=
  decidable_of_iff (IsClosed s ∧ everyOpen (fun _ => isTidyAt) .start s = true)
    ⟨fun ⟨closed, tidy⟩ => ⟨closed, tidy⟩, fun ⟨closed, tidy⟩ => ⟨closed, tidy⟩⟩

-- The characters are gone through by `List.all`: a decision of `∀ c ∈ s` may be one over all
-- characters there are.
instance (s : List Char) : Decidable (IsName s) :=
  decidable_of_iff (s ≠ [] ∧ s.all (fun c => isWordChar c && !isBlank c) = true ∧
      s.head?.any Char.isDigit = false)
    ⟨fun ⟨ne_nil, chars, head⟩ => ⟨ne_nil, by simpa using chars, head⟩,
      fun ⟨ne_nil, chars, head⟩ => ⟨ne_nil, by simpa using chars, head⟩⟩

instance (s : List Char) : Decidable (IsPhrase s) :=
  decidable_of_iff (IsOneLine s ∧ s ≠ [] ∧ IsTrimmed s)
    ⟨fun ⟨oneLine, ne_nil, trimmed⟩ => ⟨oneLine, ne_nil, trimmed⟩,
      fun h => ⟨h.toIsOneLine, h.ne_nil, h.trimmed⟩⟩

/-! ## Word characters -/

section WordChar

variable {c : Char} (h : isWordChar c = true)

include h

theorem ne_of_isWordChar {other : Char} (hother : isWordChar other = false) : c ≠ other := by
  rintro rfl
  rw [h] at hother
  cases hother

theorem isQuote_of_isWordChar : isQuote c = false := by
  have hsingle : c ≠ '\'' := ne_of_isWordChar h (by decide)
  have hdouble : c ≠ '"' := ne_of_isWordChar h (by decide)
  simp [isQuote, hsingle, hdouble]

theorem step_of_isWordChar {n : Nesting} (hn : n.quote = none) : n.step c = n :=
  step_of_plain hn (isQuote_of_isWordChar h) (ne_of_isWordChar h (by decide))
    (ne_of_isWordChar h (by decide))

end WordChar

theorem isQuote_of_isBlank {c : Char} (h : isBlank c = true) : isQuote c = false := by
  have hsingle : c ≠ '\'' := ne_of_isBlank h (by decide)
  have hdouble : c ≠ '"' := ne_of_isBlank h (by decide)
  simp [isQuote, hsingle, hdouble]

/-- A run of word characters ends where the next character is none. -/
theorem takeWhile_isWordChar_append {s rest : List Char} (hs : ∀ c ∈ s, isWordChar c = true)
    (hrest : rest.head?.any isWordChar = false) :
    (s ++ rest).takeWhile isWordChar = s ∧ (s ++ rest).dropWhile isWordChar = rest := by
  rw [List.takeWhile_append_of_pos hs, List.dropWhile_append_of_pos hs]
  cases rest with
  | nil => simp
  | cons d rest =>
    have hd : ¬ isWordChar d = true := by simpa using hrest
    rw [List.takeWhile_cons_of_neg hd, List.dropWhile_cons_of_neg hd, List.append_nil]
    exact ⟨rfl, rfl⟩

/-! ## Putting texts together -/

/-- The text can stand behind any other without ending the opening of a comment. -/
def BeginsSafely (s : List Char) : Prop := s.head? ≠ some '-' ∧ s.head? ≠ some '*'

instance (s : List Char) : Decidable (BeginsSafely s) :=
  inferInstanceAs (Decidable (s.head? ≠ some '-' ∧ s.head? ≠ some '*'))

theorem BeginsSafely.space (s : List Char) : BeginsSafely (' ' :: s) :=
  ⟨by simp, by simp⟩

/-- The only blanks in normal form are single spaces. -/
theorem eq_space_of_isTidyAt {c : Char} {rest : List Char} (h : isTidyAt c rest = true)
    (hc : isBlank c = true) : c = ' ' ∧ rest.head?.any (!isBlank ·) = true := by
  rw [isTidyAt, if_pos hc, Bool.and_eq_true, beq_iff_eq] at h
  exact h

/-- No comment begins in normal form. -/
theorem not_comment_of_isTidyAt {c : Char} {rest : List Char} (h : isTidyAt c rest = true) :
    ¬ (c = '-' ∧ rest.head? = some '-') ∧ ¬ (c = '/' ∧ rest.head? = some '*') := by
  constructor
  · rintro ⟨rfl, hnext⟩
    simp [isTidyAt, isBlank, hnext] at h
  · rintro ⟨rfl, hnext⟩
    simp [isTidyAt, isBlank, hnext] at h

theorem isTidyAt_append {c : Char} {rest t : List Char} (h : isTidyAt c rest = true)
    (ht : BeginsSafely t) : isTidyAt c (rest ++ t) = true := by
  cases rest with
  | cons d rest => exact h
  | nil =>
    unfold isTidyAt at h ⊢
    cases hblank : isBlank c with
    | true => simp [hblank] at h
    | false => simp [ht.1, ht.2]

namespace IsOneLine

variable {s t : List Char}

theorem append (hs : IsOneLine s) (ht : IsOneLine t) (hsafe : BeginsSafely t) :
    IsOneLine (s ++ t) where
  closed := hs.closed.append ht.closed
  tidy := by
    refine everyOpen_append (fun _ c rest h => isTidyAt_append h hsafe) hs.tidy ?_
    rw [hs.closed]
    exact ht.tidy

/-- A space can be put in front of any other character. -/
theorem space_cons (hs : IsOneLine s) (hhead : s.head?.any (!isBlank ·) = true) :
    IsOneLine (' ' :: s) where
  closed := hs.closed
  tidy := by
    refine everyOpen_cons ?_ hs.tidy
    have htidy : isTidyAt ' ' s = true := hhead
    simp [depthAt?, Nesting.start, isQuote, htidy]

theorem of_word (h : ∀ c ∈ s, isWordChar c = true ∧ isBlank c = false) : IsOneLine s := by
  induction s with
  | nil => decide
  | cons c s ih =>
    obtain ⟨⟨hword, hblank⟩, hs⟩ := List.forall_mem_cons.mp h
    obtain ⟨hclosed, htidy⟩ := ih hs
    have hstep : Nesting.start.step c = .start := step_of_isWordChar hword rfl
    have hdash : c ≠ '-' := ne_of_isWordChar hword (by decide)
    have hslash : c ≠ '/' := ne_of_isWordChar hword (by decide)
    refine ⟨?_, everyOpen_cons ?_ ?_⟩
    · rw [IsClosed, after_cons, hstep]
      exact hclosed
    · rw [Option.all_eq_true]
      intro d _
      simp [isTidyAt, hblank, hdash, hslash]
    · rw [hstep]
      exact htidy

/-- In parentheses. -/
theorem group (hs : IsOneLine s) : IsOneLine ('(' :: s ++ [')']) where
  closed := hs.closed.group
  tidy := by
    have habove : Above 1 .start (Nesting.start.step '(') := ⟨rfl, rfl⟩
    have hinside : everyOpen (fun _ => isTidyAt) (Nesting.start.step '(') s = true :=
      everyOpen_above habove hs.tidy
    refine everyOpen_cons ?_ (everyOpen_append (fun _ c rest h => isTidyAt_append h ?_) hinside ?_)
    · rfl
    · decide
    -- the parenthesis closes the group and nothing else
    · rw [hs.closed.after_group]
      rfl

end IsOneLine

/-! ## Texts in a place that a character ends -/

/-- The text can stand where `c` would end it: it is on one line and lacks `c`. -/
structure FitsBefore (c : Char) (s : List Char) : Prop extends IsOneLine s where
  lacks : Lacks c s

instance (c : Char) (s : List Char) : Decidable (FitsBefore c s) :=
  decidable_of_iff (IsOneLine s ∧ Lacks c s)
    ⟨fun ⟨oneLine, lacks⟩ => ⟨oneLine, lacks⟩, fun h => ⟨h.toIsOneLine, h.lacks⟩⟩

namespace FitsBefore

variable {c : Char} {s t : List Char}

theorem append (hs : FitsBefore c s) (ht : FitsBefore c t) (hsafe : BeginsSafely t) :
    FitsBefore c (s ++ t) where
  toIsOneLine := hs.toIsOneLine.append ht.toIsOneLine hsafe
  lacks := hs.lacks.append hs.closed ht.lacks

theorem space_cons (hs : FitsBefore c s) (hhead : s.head?.any (!isBlank ·) = true)
    (hc : c ≠ ' ') : FitsBefore c (' ' :: s) where
  toIsOneLine := hs.toIsOneLine.space_cons hhead
  lacks := by
    have hspace : Lacks c [' '] := .of_not_mem (by simpa using hc)
    exact hspace.append rfl hs.lacks

theorem group (hs : IsOneLine s) (hopen : c ≠ '(') (hclose : c ≠ ')') :
    FitsBefore c ('(' :: s ++ [')']) where
  toIsOneLine := hs.group
  lacks := .group hs.closed hopen hclose

theorem of_isName (h : IsName s) (hc : isWordChar c = false) : FitsBefore c s where
  toIsOneLine := .of_word h.chars
  lacks := .of_not_mem fun hmem => ne_of_isWordChar (h.chars c hmem).1 hc rfl

end FitsBefore

/-! ## The first character -/

theorem IsPhrase.head {s : List Char} (h : IsPhrase s) : s.head?.any (!isBlank ·) = true := by
  cases s with
  | nil => exact absurd rfl h.ne_nil
  | cons c rest => simpa using h.trimmed.head

theorem IsPhrase.isBlankText_eq_false {s : List Char} (h : IsPhrase s) :
    isBlankText s = false := by
  obtain ⟨c, rest, rfl⟩ := List.exists_cons_of_ne_nil h.ne_nil
  have hblank : isBlank c = false := h.trimmed.head
  simp [isBlankText, hblank]

theorem IsName.trimmed {s : List Char} (h : IsName s) : IsTrimmed s :=
  .of_forall fun c hc => (h.chars c hc).2

/-- A name is a phrase, too. -/
theorem IsName.isPhrase {s : List Char} (h : IsName s) : IsPhrase s where
  toIsOneLine := .of_word h.chars
  ne_nil := h.ne_nil
  trimmed := h.trimmed

/-- Phrases with a space between them. -/
theorem IsPhrase.append_space {s t : List Char} (hs : IsPhrase s) (ht : IsPhrase t) :
    IsPhrase (s ++ ' ' :: t) where
  toIsOneLine := hs.toIsOneLine.append (ht.toIsOneLine.space_cons ht.head) (.space t)
  ne_nil := List.append_ne_nil_of_left_ne_nil hs.ne_nil _
  trimmed := by
    rw [List.append_cons]
    exact hs.trimmed.append hs.ne_nil ht.trimmed ht.ne_nil [' ']

/-- A character that two phrases lack is not between them, unless it is a space. -/
theorem Lacks.append_space {c : Char} {s t : List Char} (hs : Lacks c s) (hclosed : IsClosed s)
    (ht : Lacks c t) (hc : c ≠ ' ') : Lacks c (s ++ ' ' :: t) := by
  have hspace : Lacks c [' '] := .of_not_mem (by simpa using hc)
  exact hs.append hclosed (hspace.append rfl ht)

end StoredRoutine.Text
