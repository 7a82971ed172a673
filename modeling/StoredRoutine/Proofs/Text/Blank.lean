import StoredRoutine.Text.Blank

/-!
# Trimming

A text that is `IsTrimmed` has no blank at either end. Trimming leaves it alone (`trim_eq_self`),
and takes away the blanks it is `Padded` with (`Padded.trim_eq`).
-/

namespace StoredRoutine.Text

/-- The text neither begins nor ends in a blank. -/
structure IsTrimmed (s : List Char) : Prop where
  head : s.head?.any isBlank = false
  last : s.getLast?.any isBlank = false

instance (s : List Char) : Decidable (IsTrimmed s) :=
  decidable_of_iff (s.head?.any isBlank = false ∧ s.getLast?.any isBlank = false)
    ⟨fun ⟨head, last⟩ => ⟨head, last⟩, fun ⟨head, last⟩ => ⟨head, last⟩⟩

theorem ne_of_isBlank {c other : Char} (h : isBlank c = true) (hother : isBlank other = false) :
    c ≠ other := by
  rintro rfl
  rw [h] at hother
  cases hother

variable {s t : List Char}

/-- Only the two ends matter. -/
theorem IsTrimmed.append (hs : IsTrimmed s) (hne : s ≠ []) (ht : IsTrimmed t) (hne' : t ≠ [])
    (mid : List Char) : IsTrimmed (s ++ mid ++ t) where
  head := by
    obtain ⟨c, rest, rfl⟩ := List.exists_cons_of_ne_nil hne
    exact hs.head
  last := by
    rw [List.getLast?_append, List.getLast?_eq_some_getLast hne', Option.some_or,
      ← List.getLast?_eq_some_getLast hne']
    exact ht.last

/-- A text without blanks is trimmed. -/
theorem IsTrimmed.of_forall (h : ∀ c ∈ s, isBlank c = false) : IsTrimmed s where
  head := by
    cases s with
    | nil => rfl
    | cons c rest => exact h c List.mem_cons_self
  last := by
    cases hlast : s.getLast? with
    | none => rfl
    | some c => exact h c (List.mem_of_getLast? hlast)

theorem trimStart_eq_self (h : s.head?.any isBlank = false) : trimStart s = s := by
  cases s with
  | nil => rfl
  | cons c rest => exact List.dropWhile_cons_of_neg (by simpa using h)

theorem IsTrimmed.trimStart_append (h : IsTrimmed s) (hne : s ≠ []) (t : List Char) :
    trimStart (s ++ t) = s ++ t := by
  obtain ⟨c, rest, rfl⟩ := List.exists_cons_of_ne_nil hne
  exact trimStart_eq_self h.head

theorem trimEnd_eq_self (h : s.getLast?.any isBlank = false) : trimEnd s = s := by
  rw [trimEnd, trimStart_eq_self, List.reverse_reverse]
  rwa [List.head?_reverse]

theorem trim_eq_self (h : IsTrimmed s) : trim s = s := by
  rw [trim, trimStart_eq_self h.head, trimEnd_eq_self h.last]

theorem trimStart_append_of_blank {blanks : List Char} (h : ∀ c ∈ blanks, isBlank c = true) :
    trimStart (blanks ++ s) = trimStart s :=
  List.dropWhile_append_of_pos h

theorem trimEnd_append_of_blank {blanks : List Char} (h : ∀ c ∈ blanks, isBlank c = true) :
    trimEnd (s ++ blanks) = trimEnd s := by
  rw [trimEnd, List.reverse_append, trimStart_append_of_blank, trimEnd]
  exact fun c hc => h c (List.mem_reverse.mp hc)

/-- A space in front does not matter. -/
@[simp] theorem trimStart_space (s : List Char) : trimStart (' ' :: s) = trimStart s := rfl

/-- What trimming takes away at the end. -/
theorem exists_trimEnd_append (s : List Char) :
    ∃ blanks, s = trimEnd s ++ blanks ∧ ∀ c ∈ blanks, isBlank c = true := by
  refine ⟨(s.reverse.takeWhile isBlank).reverse, ?_, ?_⟩
  · rw [trimEnd, trimStart, ← List.reverse_append, List.takeWhile_append_dropWhile,
      List.reverse_reverse]
  · intro c hc
    exact List.all_eq_true.mp List.all_takeWhile c (List.mem_reverse.mp hc)

/-! ## Blanks around a text -/

/-- The second text is the first one with blanks on either side, or on none. -/
def Padded (s t : List Char) : Prop :=
  ∃ before after, t = before ++ (s ++ after) ∧ (∀ c ∈ before, isBlank c = true) ∧
    ∀ c ∈ after, isBlank c = true

theorem Padded.refl (s : List Char) : Padded s s := ⟨[], [], by simp, by simp, by simp⟩

theorem Padded.cons_blank (h : Padded s t) {c : Char} (hc : isBlank c = true) :
    Padded s (c :: t) := by
  obtain ⟨before, after, rfl, hbefore, hafter⟩ := h
  exact ⟨c :: before, after, rfl, List.forall_mem_cons.mpr ⟨hc, hbefore⟩, hafter⟩

/-- What trimming takes away. -/
theorem padded_trim (s : List Char) : Padded (trim s) s := by
  obtain ⟨after, hs, hafter⟩ := exists_trimEnd_append (trimStart s)
  refine ⟨s.takeWhile isBlank, after, ?_, fun c hc => List.all_eq_true.mp List.all_takeWhile c hc,
    hafter⟩
  rw [trim, ← hs]
  exact List.takeWhile_append_dropWhile.symm

/-- **Trimming takes away the blanks** around a text that has none itself. -/
theorem Padded.trim_eq (h : Padded s t) (hs : IsTrimmed s) : trim t = s := by
  obtain ⟨before, after, rfl, hbefore, hafter⟩ := h
  rw [trim, trimStart_append_of_blank hbefore]
  cases s with
  | nil =>
    have hnone := trimStart_append_of_blank (s := []) hafter
    rw [List.append_nil] at hnone
    rw [List.nil_append, hnone]
    rfl
  | cons c s =>
    rw [hs.trimStart_append (List.cons_ne_nil c s), trimEnd_append_of_blank hafter,
      trimEnd_eq_self hs.last]

end StoredRoutine.Text
