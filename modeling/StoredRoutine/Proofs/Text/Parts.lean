import StoredRoutine.Proofs.Text.OneLine

/-!
# Parts of a text

What is cut out of a text. `IsPart t s` says that `t` is a closed text that stands in `s` outside
parentheses and quotes. Whatever is true of the characters of `s` in the open is then true of those
of `t` (`IsPart.lacks`, `IsPart.isLoose`), and a part of a part is a part (`IsPart.trans`).

A text is `IsLoose` if it is closed and in normal form, except that a space may be its last
character. This, unlike being on one line, is passed on to every part, and trimming does away with
the exception (`IsLoose.isPhrase`).
-/

namespace StoredRoutine.Text

open Nesting

/-! ## Closed texts -/

/-- Nothing is quoted at the beginning of a text. -/
theorem isQuote_of_start : ∀ quote ∈ Nesting.start.quote, isQuote quote = true := by
  simp [Nesting.start]

/-- Only a quote opens a quoted section. -/
theorem isQuote_of_after {n : Nesting} (hn : ∀ quote ∈ n.quote, isQuote quote = true)
    (s : List Char) : ∀ quote ∈ (n.after s).quote, isQuote quote = true := by
  induction s generalizing n with
  | nil => exact hn
  | cons c s ih =>
    refine ih ?_
    intro quote hquote
    cases hnone : n.quote with
    | none =>
      rw [quote_step_of_none hnone] at hquote
      split_ifs at hquote with hc
      · obtain rfl := Option.some.inj hquote
        exact hc
      · cases hquote
    | some opened =>
      rw [quote_step_of_some hnone] at hquote
      split_ifs at hquote
      · cases hquote
      · obtain rfl := Option.some.inj hquote
        exact hn _ hnone

/-- Only quotes and parentheses change anything, in quotes or in the open. -/
theorem step_eq_self {n : Nesting} (hn : ∀ quote ∈ n.quote, isQuote quote = true) {c : Char}
    (hquote : isQuote c = false) (hopen : c ≠ '(') (hclose : c ≠ ')') : n.step c = n := by
  cases hnone : n.quote with
  | none => exact step_of_plain hnone hquote hopen hclose
  | some quote =>
    have hne : c ≠ quote := by
      rintro rfl
      rw [hn c hnone] at hquote
      cases hquote
    simp [Nesting.step, hnone, hne]

/-- Blanks change nothing, in quotes or in the open. -/
theorem after_blanks {n : Nesting} (hn : ∀ quote ∈ n.quote, isQuote quote = true)
    {blanks : List Char} (h : ∀ c ∈ blanks, isBlank c = true) : n.after blanks = n := by
  induction blanks with
  | nil => rfl
  | cons c blanks ih =>
    obtain ⟨hc, hblanks⟩ := List.forall_mem_cons.mp h
    rw [after_cons, step_eq_self hn (isQuote_of_isBlank hc) (ne_of_isBlank hc (by decide))
      (ne_of_isBlank hc (by decide)), ih hblanks]

theorem isClosed_of_blank {blanks : List Char} (h : ∀ c ∈ blanks, isBlank c = true) :
    IsClosed blanks :=
  after_blanks isQuote_of_start h

/-- Nothing is opened or closed in a word. -/
theorem after_of_word {s : List Char} (h : ∀ c ∈ s, isWordChar c = true) {n : Nesting}
    (hn : n.quote = none) : n.after s = n := by
  induction s with
  | nil => rfl
  | cons c s ih =>
    obtain ⟨hc, hs⟩ := List.forall_mem_cons.mp h
    rw [after_cons, step_of_isWordChar hc hn]
    exact ih hs

theorem isClosed_of_word {s : List Char} (h : ∀ c ∈ s, isWordChar c = true) : IsClosed s :=
  after_of_word h rfl

/-- A quoted identifier is closed behind its second quote. -/
theorem isClosed_quoted {name : List Char} (h : ∀ c ∈ name, c ≠ '"') :
    IsClosed ('"' :: name ++ ['"']) := by
  have hinside : ∀ n : Nesting, n.quote = some '"' → n.after name = n := by
    induction name with
    | nil => exact fun n _ => rfl
    | cons c name ih =>
      obtain ⟨hc, hname⟩ := List.forall_mem_cons.mp h
      intro n hn
      have hstep : n.step c = n := by simp [Nesting.step, hn, hc]
      rw [after_cons, hstep, ih hname n hn]
  rw [IsClosed, List.cons_append, after_cons, after_append, hinside _ rfl]
  rfl

theorem IsClosed.isBalanced {s : List Char} (h : IsClosed s) : isBalanced s = true := by
  rw [Text.isBalanced, h]
  rfl

theorem underflow_of_isBalanced {s : List Char} (h : isBalanced s = true) :
    (Nesting.start.after s).underflow = false := by
  rw [isBalanced, isLevel, Bool.and_eq_true, Bool.not_eq_true'] at h
  exact h.2

/-- Behind a closed text the rest of a closed text is closed. -/
theorem IsClosed.right {s t : List Char} (h : IsClosed (s ++ t)) (hs : IsClosed s) :
    IsClosed t := by
  rw [IsClosed, after_append, hs] at h
  exact h

/-- A balanced text is cut at depth zero behind a closed text. -/
theorem isClosed_of_depthAt? {s t : List Char} {c : Char} (h : isBalanced (s ++ c :: t) = true)
    (hdepth : (Nesting.start.after s).depthAt? c = some 0) (hc : c ≠ ')') : IsClosed s := by
  have hunderflow := underflow_of_isBalanced h
  rw [after_append] at hunderflow
  obtain ⟨hquote, -, hzero⟩ := of_depthAt?_eq_some hdepth
  rw [if_neg hc] at hzero
  exact isClosed_iff.mpr ⟨hquote, hzero.symm, underflow_of_after hunderflow⟩

/-! ## Parts -/

/-- The first text is closed, and stands in the second one behind a closed text. -/
def IsPart (t s : List Char) : Prop := ∃ a b, s = a ++ (t ++ b) ∧ IsClosed a ∧ IsClosed t

namespace IsPart

variable {r s t : List Char}

theorem isClosed (h : IsPart t s) : IsClosed t := by
  obtain ⟨a, b, rfl, -, ht⟩ := h
  exact ht

theorem refl (h : IsClosed s) : IsPart s s := ⟨[], [], by simp, rfl, h⟩

theorem left (hs : IsClosed s) (t : List Char) : IsPart s (s ++ t) := ⟨[], t, rfl, rfl, hs⟩

theorem right (h : IsClosed (s ++ t)) (hs : IsClosed s) : IsPart t (s ++ t) :=
  ⟨s, [], by simp, hs, h.right hs⟩

theorem trans (hr : IsPart r s) (hs : IsPart s t) : IsPart r t := by
  obtain ⟨a, b, rfl, ha, -⟩ := hs
  obtain ⟨a', b', rfl, ha', hr⟩ := hr
  exact ⟨a ++ a', b' ++ b, by simp, ha.append ha', hr⟩

end IsPart

/-- The first text is what is left of the second one behind a closed text. Unlike a part, it need
not be closed: the second one can end within quotes. -/
def IsRest (t s : List Char) : Prop := ∃ a, s = a ++ t ∧ IsClosed a

namespace IsRest

variable {r s t : List Char}

theorem trans (hr : IsRest r s) (hs : IsRest s t) : IsRest r t := by
  obtain ⟨a, rfl, ha⟩ := hs
  obtain ⟨a', rfl, ha'⟩ := hr
  exact ⟨a ++ a', (List.append_assoc a a' r).symm, ha.append ha'⟩

/-- The nesting at the end is the same. -/
theorem after_eq (h : IsRest t s) : Nesting.start.after s = Nesting.start.after t := by
  obtain ⟨a, rfl, ha⟩ := h
  rw [after_append, ha]

theorem isPart (h : IsRest t s) (hs : IsClosed s) : IsPart t s := by
  obtain ⟨a, rfl, ha⟩ := h
  exact .right hs ha

theorem isBalanced_eq (h : IsRest t s) : isBalanced t = isBalanced s := by
  rw [isBalanced, isBalanced, h.after_eq]

end IsRest

section EveryOpen

variable {test : Int → Char → List Char → Bool} {n : Nesting} {s t : List Char}

theorem everyOpen_left (hlocal : ∀ d c rest, test d c (rest ++ t) = true → test d c rest = true)
    (h : everyOpen test n (s ++ t) = true) : everyOpen test n s = true := by
  induction s generalizing n with
  | nil => rfl
  | cons c s ih =>
    obtain ⟨hc, hs⟩ := of_everyOpen_cons h
    refine everyOpen_cons ?_ (ih hs)
    rw [Option.all_eq_true] at hc ⊢
    exact fun d hd => hlocal d c s (hc d hd)

theorem everyOpen_right (h : everyOpen test n (s ++ t) = true) :
    everyOpen test (n.after s) t = true := by
  induction s generalizing n with
  | nil => exact h
  | cons c s ih => exact ih (of_everyOpen_cons h).2

/-- A test that does not need what follows a part is passed by the part. -/
theorem IsPart.everyOpen (h : IsPart t s)
    (hlocal : ∀ d c rest rest', test d c (rest ++ rest') = true → test d c rest = true)
    (hs : everyOpen test .start s = true) : everyOpen test .start t = true := by
  obtain ⟨a, b, rfl, ha, -⟩ := h
  have hright := everyOpen_right hs
  rw [ha] at hright
  exact everyOpen_left (fun d c rest => hlocal d c rest b) hright

end EveryOpen

theorem IsPart.lacks {c : Char} {s t : List Char} (h : IsPart t s) (hs : Lacks c s) :
    Lacks c t :=
  h.everyOpen (fun _ _ _ _ => id) hs

/-! ## Normal form up to a space at the end -/

/-- In the open a blank is a space without another one behind it, and no comment begins. -/
def isLooseAt (c : Char) (rest : List Char) : Bool :=
  if isBlank c then c == ' ' && !rest.head?.any isBlank
  else !(c == '-' && rest.head? == some '-') && !(c == '/' && rest.head? == some '*')

theorem isLooseAt_of_append {c : Char} {rest t : List Char}
    (h : isLooseAt c (rest ++ t) = true) : isLooseAt c rest = true := by
  cases rest with
  | cons d rest => exact h
  | nil =>
    unfold isLooseAt at h ⊢
    split_ifs at h ⊢
    · rw [Bool.and_eq_true] at h
      rw [h.1]
      rfl
    · simp

/-- Only a blank at the end makes the difference. -/
theorem isTidyAt_of_isLooseAt {c : Char} {rest : List Char} (h : isLooseAt c rest = true)
    (hlast : rest = [] → isBlank c = false) : isTidyAt c rest = true := by
  unfold isLooseAt at h
  unfold isTidyAt
  split_ifs at h ⊢ with hc
  · cases rest with
    | nil =>
      rw [hlast rfl] at hc
      cases hc
    | cons d rest => exact h
  · exact h

/-- The text is closed, and in normal form up to a space at its end. -/
structure IsLoose (s : List Char) : Prop where
  closed : IsClosed s
  loose : everyOpen (fun _ => isLooseAt) .start s = true

theorem IsPart.isLoose {s t : List Char} (h : IsPart t s) (hs : IsLoose s) : IsLoose t where
  closed := h.isClosed
  loose := h.everyOpen (fun _ _ _ _ => isLooseAt_of_append) hs.loose

theorem everyOpen_isTidyAt {n : Nesting} {s : List Char}
    (h : everyOpen (fun _ => isLooseAt) n s = true) (hlast : s.getLast?.any isBlank = false) :
    everyOpen (fun _ => isTidyAt) n s = true := by
  induction s generalizing n with
  | nil => rfl
  | cons c s ih =>
    obtain ⟨hc, hs⟩ := of_everyOpen_cons h
    refine everyOpen_cons ?_ (ih hs ?_)
    · rw [Option.all_eq_true] at hc ⊢
      intro d hd
      refine isTidyAt_of_isLooseAt (hc d hd) ?_
      rintro rfl
      exact hlast
    · cases s with
      | nil => rfl
      | cons d s => rwa [List.getLast?_cons_cons] at hlast

/-! ## Trimming -/

theorem head?_trimStart (s : List Char) : (trimStart s).head?.any isBlank = false := by
  have hnot := List.head?_dropWhile_not isBlank s
  rw [trimStart]
  cases h : (s.dropWhile isBlank).head? with
  | none => rfl
  | some c =>
    rw [h] at hnot
    simpa using hnot

theorem getLast?_trimEnd (s : List Char) : (trimEnd s).getLast?.any isBlank = false := by
  rw [trimEnd, List.getLast?_reverse]
  exact head?_trimStart s.reverse

theorem length_trim_le (s : List Char) : (trim s).length ≤ s.length := by
  have hstart : ∀ t : List Char, (trimStart t).length ≤ t.length :=
    fun t => (List.dropWhile_sublist isBlank).length_le
  have hend := hstart (trimStart s).reverse
  rw [List.length_reverse] at hend
  rw [trim, trimEnd, List.length_reverse]
  exact Nat.le_trans hend (hstart s)

theorem isRest_trimStart (s : List Char) : IsRest (trimStart s) s := by
  have hblank : ∀ c ∈ s.takeWhile isBlank, isBlank c = true :=
    fun c hc => List.all_eq_true.mp List.all_takeWhile c hc
  exact ⟨s.takeWhile isBlank, List.takeWhile_append_dropWhile.symm, isClosed_of_blank hblank⟩

theorem isPart_trimStart {s : List Char} (h : IsClosed s) : IsPart (trimStart s) s :=
  (isRest_trimStart s).isPart h

/-- Blanks around a text do not matter to the nesting. -/
theorem Padded.after_eq {s t : List Char} (h : Padded s t) :
    Nesting.start.after t = Nesting.start.after s := by
  obtain ⟨before, after, rfl, hbefore, hafter⟩ := h
  rw [after_append, after_append, isClosed_of_blank hbefore,
    after_blanks (isQuote_of_after isQuote_of_start s) hafter]

theorem Padded.isBalanced_eq {s t : List Char} (h : Padded s t) :
    isBalanced t = isBalanced s := by
  rw [isBalanced, isBalanced, h.after_eq]

theorem isBalanced_trim (s : List Char) : isBalanced (trim s) = isBalanced s :=
  (padded_trim s).isBalanced_eq.symm

theorem Padded.isPart {s t : List Char} (h : Padded s t) (ht : IsClosed t) : IsPart s t := by
  have hs : IsClosed s := h.after_eq.symm.trans ht
  obtain ⟨before, after, rfl, hbefore, -⟩ := h
  exact ⟨before, after, rfl, isClosed_of_blank hbefore, hs⟩

theorem padded_trimEnd (s : List Char) : Padded (trimEnd s) s := by
  obtain ⟨blanks, hs, hblanks⟩ := exists_trimEnd_append s
  exact ⟨[], blanks, hs, by simp, hblanks⟩

theorem isClosed_trimEnd {s : List Char} (h : IsClosed s) : IsClosed (trimEnd s) :=
  (padded_trimEnd s).after_eq.symm.trans h

theorem isPart_trim {s : List Char} (h : IsClosed s) : IsPart (trim s) s :=
  (padded_trim s).isPart h

theorem isTrimmed_trim (s : List Char) : IsTrimmed (trim s) where
  head := by
    obtain ⟨blanks, hs, -⟩ := exists_trimEnd_append (trimStart s)
    have hhead := head?_trimStart s
    cases htrim : trim s with
    | nil => rfl
    | cons c rest =>
      rw [trim] at htrim
      rw [hs, htrim] at hhead
      exact hhead
  last := getLast?_trimEnd (trimStart s)

/-- A loose text that is trimmed is a phrase. -/
theorem IsLoose.isPhrase {s : List Char} (h : IsLoose s) (htrimmed : IsTrimmed s) (hne : s ≠ []) :
    IsPhrase s where
  closed := h.closed
  tidy := everyOpen_isTidyAt h.loose htrimmed.last
  ne_nil := hne
  trimmed := htrimmed

end StoredRoutine.Text
