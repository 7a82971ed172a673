import StoredRoutine.Proofs.Text.Parts

/-!
# Splitting a text

What a text splits into at a separator. `IsCut` is an account of a split: every piece has no
separator at depth zero, every piece but the last is closed, and the last is balanced. There is one
for every balanced text (`isCut_pieces`), and no other (`IsCut.pieces_eq`), so that whatever is to
be known of the pieces is read off it.

`Joined` says how texts are put together again, with a separator between two of them and blanks
around each. Splitting undoes joining (`Joined.split?_eq`), and the other way round
(`IsCut.joined`).
-/

namespace StoredRoutine.Text

open Nesting

/-- A character that can separate pieces: no quote, no parenthesis and no blank. -/
structure IsSeparator (c : Char) : Prop where
  quote : isQuote c = false
  opens : c ≠ '('
  closes : c ≠ ')'
  blank : isBlank c = false

instance (c : Char) : Decidable (IsSeparator c) :=
  decidable_of_iff (isQuote c = false ∧ c ≠ '(' ∧ c ≠ ')' ∧ isBlank c = false)
    ⟨fun ⟨quote, opens, closes, blank⟩ => ⟨quote, opens, closes, blank⟩,
      fun ⟨quote, opens, closes, blank⟩ => ⟨quote, opens, closes, blank⟩⟩

variable {separator : Char} {n : Nesting} {s t : List Char}

/-! ## Separators -/

namespace IsSeparator

theorem step_start (h : IsSeparator separator) : Nesting.start.step separator = .start :=
  step_of_plain rfl h.quote h.opens h.closes

theorem isClosed (h : IsSeparator separator) : IsClosed [separator] := h.step_start

theorem depthAt?_start (h : IsSeparator separator) :
    Nesting.start.depthAt? separator = some 0 := by
  simp [depthAt?, Nesting.start, h.quote, h.closes]

/-- There is no separator in blanks. -/
theorem lacks_blanks (h : IsSeparator separator) (hs : ∀ c ∈ s, isBlank c = true) :
    Lacks separator s := by
  refine .of_not_mem fun hmem => ?_
  have hblank := hs separator hmem
  rw [h.blank] at hblank
  cases hblank

end IsSeparator

/-- A text has no separator at depth zero, or is cut at the first one. -/
theorem lacks_or_exists_separator (separator : Char) (n : Nesting) (s : List Char) :
    everyOpen (fun d c _ => c != separator || d != 0) n s = true ∨
      ∃ a b, s = a ++ separator :: b ∧ (n.after a).depthAt? separator = some 0 ∧
        everyOpen (fun d c _ => c != separator || d != 0) n a = true := by
  induction s generalizing n with
  | nil => exact .inl rfl
  | cons c s ih =>
    by_cases hcut : c = separator ∧ n.depthAt? c = some 0
    · obtain ⟨rfl, hdepth⟩ := hcut
      exact .inr ⟨[], s, rfl, hdepth, rfl⟩
    · have hc := all_depthAt?_iff.mpr hcut
      rcases ih (n.step c) with hs | ⟨a, b, rfl, hdepth, ha⟩
      · exact .inl (everyOpen_cons hc hs)
      · exact .inr ⟨c :: a, b, rfl, hdepth, everyOpen_cons hc ha⟩

/-! ## The pieces -/

/-- A text without separators stays in one piece, whatever follows it. -/
theorem pieces_append
    (h : everyOpen (fun d c _ => c != separator || d != 0) n s = true) :
    pieces separator n (s ++ t) = (pieces separator (n.after s) t).modifyHead (s ++ ·) := by
  induction s generalizing n with
  | nil =>
    rw [after_nil, List.nil_append]
    cases pieces separator n t <;> rfl
  | cons c s ih =>
    obtain ⟨hc, hs⟩ := of_everyOpen_cons h
    -- a separator in the open is what the piece does not have
    rw [List.cons_append, pieces, if_neg (all_depthAt?_iff.mp hc), ih hs,
      List.modifyHead_modifyHead]
    rfl

theorem pieces_append_separator (hseparator : IsSeparator separator) (hlacks : Lacks separator s)
    (hs : IsClosed s) :
    pieces separator .start (s ++ separator :: t) = s :: pieces separator .start t := by
  rw [pieces_append hlacks, hs, pieces, hseparator.step_start,
    if_pos ⟨rfl, hseparator.depthAt?_start⟩, List.modifyHead_cons, List.append_nil]

theorem pieces_eq_singleton (h : Lacks separator s) : pieces separator .start s = [s] := by
  have happend := pieces_append (t := []) h
  rw [List.append_nil] at happend
  rw [happend, pieces, List.modifyHead_cons, List.append_nil]

/-- What a text is cut into: pieces without separators, the last of which is balanced and the
others closed. -/
inductive IsCut (separator : Char) : List Char → List (List Char) → Prop
  | last {s : List Char} (balanced : isBalanced s = true) (lacks : Lacks separator s) :
      IsCut separator s [s]
  | cons {piece s : List Char} {others : List (List Char)} (closed : IsClosed piece)
      (lacks : Lacks separator piece) (rest : IsCut separator s others) :
      IsCut separator (piece ++ separator :: s) (piece :: others)

/-- What follows a piece and the separator behind it. -/
theorem IsClosed.isRest (hs : IsClosed s) (hseparator : IsSeparator separator) (t : List Char) :
    IsRest t (s ++ separator :: t) :=
  ⟨s ++ [separator], List.append_cons s separator t, hs.append hseparator.isClosed⟩

/-- **There is an account for every balanced text.** -/
theorem isCut_pieces (hseparator : IsSeparator separator) (hs : isBalanced s = true) :
    IsCut separator s (pieces separator .start s) := by
  induction hlength : s.length using Nat.strongRecOn generalizing s with
  | ind length ih =>
    rcases lacks_or_exists_separator separator .start s with
      hlacks | ⟨a, b, rfl, hdepth, ha⟩
    · rw [pieces_eq_singleton hlacks]
      exact .last hs hlacks
    · have haclosed := isClosed_of_depthAt? hs hdepth hseparator.closes
      have hshorter : b.length < length := by
        rw [← hlength]
        simp
        omega
      have hb : isBalanced b = true := (haclosed.isRest hseparator b).isBalanced_eq.trans hs
      rw [pieces_append_separator hseparator ha haclosed]
      exact .cons haclosed ha (ih b.length hshorter hb rfl)

namespace IsCut

variable {cuts : List (List Char)}

theorem isBalanced (h : IsCut separator s cuts) (hseparator : IsSeparator separator) :
    isBalanced s = true := by
  induction h with
  | last balanced lacks => exact balanced
  | cons closed lacks rest ih =>
    exact (closed.isRest hseparator _).isBalanced_eq.symm.trans ih

/-- **There is no other account.** -/
theorem pieces_eq (h : IsCut separator s cuts) (hseparator : IsSeparator separator) :
    pieces separator .start s = cuts := by
  induction h with
  | last balanced lacks => exact pieces_eq_singleton lacks
  | cons closed lacks rest ih => rw [pieces_append_separator hseparator lacks closed, ih]

/-- Every piece is balanced, and has no separators. -/
theorem of_mem (h : IsCut separator s cuts) :
    ∀ piece ∈ cuts, Text.isBalanced piece = true ∧ Lacks separator piece := by
  induction h with
  | last balanced lacks => simpa using ⟨balanced, lacks⟩
  | cons closed lacks rest ih => exact List.forall_mem_cons.mpr ⟨⟨closed.isBalanced, lacks⟩, ih⟩

/-- **The pieces of a closed text are parts** of it. -/
theorem isPart_of_mem (h : IsCut separator s cuts) (hseparator : IsSeparator separator)
    (hs : IsClosed s) : ∀ piece ∈ cuts, IsPart piece s := by
  induction h with
  | last balanced lacks => simpa using IsPart.refl hs
  | @cons piece s others closed lacks rest ih =>
    have hpart := (closed.isRest hseparator s).isPart hs
    refine List.forall_mem_cons.mpr ⟨.left closed _, fun other hother => ?_⟩
    exact (ih hpart.isClosed other hother).trans hpart

end IsCut

/-! ## Joining -/

/-- The text is the given ones put together: a separator stands between two of them, and there may
be blanks around each. -/
inductive Joined (separator : Char) : List (List Char) → List Char → Prop
  | last {piece s : List Char} (padded : Padded piece s) : Joined separator [piece] s
  | cons {piece front s : List Char} {others : List (List Char)} (padded : Padded piece front)
      (rest : Joined separator others s) :
      Joined separator (piece :: others) (front ++ separator :: s)

/-- There may be blanks in front of the whole. -/
theorem Joined.cons_blank {parts : List (List Char)} (h : Joined separator parts s) {c : Char}
    (hc : isBlank c = true) : Joined separator parts (c :: s) := by
  cases h with
  | last padded => exact .last (padded.cons_blank hc)
  | cons padded rest => exact .cons (padded.cons_blank hc) rest

/-- Blanks around a text are no separators. -/
theorem Lacks.padded (hlacks : Lacks separator s) (hs : IsClosed s)
    (hseparator : IsSeparator separator) (h : Padded s t) : Lacks separator t := by
  obtain ⟨before, after, rfl, hbefore, hafter⟩ := h
  exact (hseparator.lacks_blanks hbefore).append (isClosed_of_blank hbefore)
    (hlacks.append hs (hseparator.lacks_blanks hafter))

theorem Lacks.of_padded (hlacks : Lacks separator t) (h : Padded s t) : Lacks separator s := by
  obtain ⟨before, after, rfl, hbefore, -⟩ := h
  have hright := everyOpen_right hlacks
  rw [isClosed_of_blank hbefore] at hright
  exact everyOpen_left (fun _ _ _ => id) hright

/-- **A joined text is cut** where it was joined. -/
theorem Joined.exists_isCut {parts : List (List Char)} (h : Joined separator parts s)
    (hseparator : IsSeparator separator)
    (hparts : ∀ part ∈ parts, IsTrimmed part ∧ IsClosed part ∧ Lacks separator part) :
    ∃ cuts, IsCut separator s cuts ∧ cuts.map trim = parts := by
  induction h with
  | @last piece s padded =>
    obtain ⟨htrimmed, hclosed, hlacks⟩ := hparts piece List.mem_cons_self
    refine ⟨[s], .last ?_ (hlacks.padded hclosed hseparator padded), ?_⟩
    · rw [padded.isBalanced_eq, hclosed.isBalanced]
    · rw [List.map_singleton, padded.trim_eq htrimmed]
  | @cons piece front s others padded rest ih =>
    obtain ⟨⟨htrimmed, hclosed, hlacks⟩, hothers⟩ := List.forall_mem_cons.mp hparts
    obtain ⟨cuts, hcuts, rfl⟩ := ih hothers
    have hfront : IsClosed front := padded.after_eq.trans hclosed
    refine ⟨front :: cuts, .cons hfront (hlacks.padded hclosed hseparator padded) hcuts, ?_⟩
    rw [List.map_cons, padded.trim_eq htrimmed]

/-- **A text that was cut is joined** from the trimmed pieces. -/
theorem IsCut.joined {cuts : List (List Char)} (h : IsCut separator s cuts) :
    Joined separator (cuts.map trim) s := by
  induction h with
  | last balanced lacks => exact .last (padded_trim _)
  | cons closed lacks rest ih => exact .cons (padded_trim _) ih

/-! ## The outcomes of a split -/

theorem pieces_ne_nil (separator : Char) (n : Nesting) (s : List Char) :
    pieces separator n s ≠ [] := by
  cases s with
  | nil => exact List.cons_ne_nil [] []
  | cons c s =>
    rw [pieces]
    split_ifs
    · exact List.cons_ne_nil [] _
    · exact mt List.modifyHead_eq_nil_iff.mp (pieces_ne_nil separator (n.step c) s)

/-- A text is in one piece only if it has no separator. -/
theorem lacks_iff_length_pieces :
    Lacks separator s ↔ (pieces separator .start s).length = 1 := by
  constructor
  · intro h
    rw [pieces_eq_singleton h]
    rfl
  · intro h
    rcases lacks_or_exists_separator separator .start s with hlacks | ⟨a, b, rfl, hdepth, ha⟩
    · exact hlacks
    · rw [pieces_append ha, pieces, if_pos ⟨rfl, hdepth⟩, List.length_modifyHead,
        List.length_cons] at h
      exact absurd (List.eq_nil_of_length_eq_zero (Nat.succ.inj h)) (pieces_ne_nil _ _ _)

theorem split?_eq_none_iff :
    split? separator s = none ↔ isBlankText s = false ∧ isBalanced s = false := by
  unfold split?
  split_ifs with hblank hbalanced
  · simp [hblank]
  · simp [hbalanced]
  · simp [hblank, hbalanced]

theorem split?_eq_some_nil_iff : split? separator s = some [] ↔ isBlankText s = true := by
  unfold split?
  split_ifs with hblank hbalanced
  · simp [hblank]
  · simp [hblank, pieces_ne_nil]
  · simp [hblank]

theorem split?_of_isBalanced (hblank : isBlankText s = false) (hs : isBalanced s = true) :
    split? separator s = some ((pieces separator .start s).map trim) := by
  rw [split?, if_neg (by simp [hblank]), if_pos hs]

/-- A text that is balanced is split. -/
theorem exists_split? (separator : Char) (hs : isBalanced s = true) :
    ∃ parts, split? separator s = some parts := by
  rw [← Option.isSome_iff_exists, Option.isSome_iff_ne_none, ne_eq, split?_eq_none_iff]
  simp [hs]

/-- **Splitting undoes joining.** -/
theorem Joined.split?_eq {parts : List (List Char)} (h : Joined separator parts s)
    (hseparator : IsSeparator separator) (hblank : isBlankText s = false)
    (hparts : ∀ part ∈ parts, IsTrimmed part ∧ IsClosed part ∧ Lacks separator part) :
    split? separator s = some parts := by
  obtain ⟨cuts, hcuts, rfl⟩ := h.exists_isCut hseparator hparts
  rw [split?_of_isBalanced hblank (hcuts.isBalanced hseparator), hcuts.pieces_eq hseparator]

end StoredRoutine.Text
