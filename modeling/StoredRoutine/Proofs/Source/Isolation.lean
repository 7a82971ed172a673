import StoredRoutine.Proofs.Source.Joining

/-!
# Statements do not leak

A source is `IsSettled` if reading it ends in the open with nothing begun: its last statement has
ended in a semicolon outside parentheses, and all that came behind it are gaps. No matter what such
a source holds, and no matter what follows it, none of it is left when the next statement begins
(`IsSettled.parts`).

How far a reading has come is its `Progress`. Each glyph takes it one step further, and what is
known of the end is found by going back over the steps (`Progress.cutAfter?_of_done`).
-/

namespace StoredRoutine

namespace Source

/-! ## Progress -/

/-- How far the reading of a statement has come. -/
structure Progress where
  /-- the depth of parentheses -/
  depth : Int
  /-- whether the statement has anything in it yet -/
  begun : Bool
  deriving DecidableEq, Repr

namespace Progress

/-- Nothing has been read. -/
def start : Progress := ⟨0, false⟩

/-- The progress after one more glyph. A semicolon that does not stand inside parentheses ends the
statement. -/
def step (s : Progress) (g : Glyph) : Progress :=
  if g.isCode ';' && s.depth ≤ 0 then start else ⟨s.depth + g.turn, s.begun || !g.isGap⟩

/-- The progress after some glyphs. -/
def after (s : Progress) (gs : List Glyph) : Progress := gs.foldl step s

@[simp] theorem after_nil (s : Progress) : s.after [] = s := rfl

@[simp] theorem after_cons (s : Progress) (g : Glyph) (gs : List Glyph) :
    s.after (g :: gs) = (s.step g).after gs := rfl

theorem after_append (s : Progress) (gs hs : List Glyph) :
    s.after (gs ++ hs) = (s.after gs).after hs := List.foldl_append

theorem after_shift (s : Progress) (origin : Position) (gs : List Glyph) :
    s.after (gs.map (Glyph.shift origin)) = s.after gs := by
  rw [after, List.foldl_map]
  rfl

/-- **Going back from the end.** If nothing is begun at the end, then nothing was ever begun, or a
semicolon ended a statement and what follows it ends with nothing begun, too. -/
theorem cutAfter?_of_done {s : Progress} {gs : List Glyph} (h : (s.after gs).begun = false) :
    (s.begun = false ∧ ∀ g ∈ gs, g.isGap = true) ∨
      ∃ first others, cutAfter? (· ≤ 0) s.depth gs = some (first, others) ∧
        (start.after others).begun = false := by
  induction gs generalizing s with
  | nil => exact .inl ⟨h, by simp⟩
  | cons g gs ih =>
    rw [after_cons, step] at h
    by_cases hend : (g.isCode ';' && decide (s.depth ≤ 0)) = true
    · rw [if_pos hend] at h
      exact .inr ⟨[g], gs, by rw [cutAfter?, if_pos hend], h⟩
    · rw [if_neg hend] at h
      rcases ih h with ⟨hbegun, hgaps⟩ | ⟨first, others, hcut, hothers⟩
      · obtain ⟨hs, hg⟩ := Bool.or_eq_false_iff.mp hbegun
        have hgap : g.isGap = true := by simpa using hg
        exact .inl ⟨hs, List.forall_mem_cons.mpr ⟨hgap, hgaps⟩⟩
      · exact .inr ⟨g :: first, others, by rw [cutAfter?, if_neg hend, hcut]; rfl, hothers⟩

/-- What is read last, if nothing is begun behind it, is a semicolon or a gap. -/
theorem last_of_done {s : Progress} {gs : List Glyph} (h : (s.after gs).begun = false) :
    ∀ g ∈ gs.getLast?, g.isCode ';' = true ∨ g.isGap = true := by
  intro g hg
  obtain ⟨front, rfl⟩ := List.getLast?_eq_some_iff.mp hg
  rw [after_append, after_cons, after_nil, step] at h
  split at h
  · next hend => exact .inl (Bool.and_eq_true_iff.mp hend).1
  · have hgap := (Bool.or_eq_false_iff.mp h).2
    exact .inr (by simpa using hgap)

end Progress

/-! ## Statements behind statements -/

theorem cutAfter?_append {ends : Int → Bool} {depth : Int} {gs first others : List Glyph}
    (h : cutAfter? ends depth gs = some (first, others)) (hs : List Glyph) :
    cutAfter? ends depth (gs ++ hs) = some (first, others ++ hs) := by
  induction gs generalizing depth first with
  | nil => cases h
  | cons g gs ih =>
    rw [cutAfter?] at h
    rw [List.cons_append, cutAfter?]
    split at h
    · next hend =>
      cases h
      rw [if_pos hend]
    · next hend =>
      obtain ⟨⟨first', others'⟩, hcut, heq⟩ := Option.map_eq_some_iff.mp h
      cases heq
      rw [if_neg hend, ih hcut]
      rfl

/-- A semicolon outside parentheses ends the first statement whatever follows. -/
theorem firstStatement?_append {gs first others : List Glyph}
    (h : cutAfter? (· ≤ 0) 0 gs = some (first, others)) (hs : List Glyph) :
    firstStatement? (gs ++ hs) = some (first, others ++ hs) := by
  rw [firstStatement?, cutAfter?_append h]

/-- A gap in front of a source does not belong to any statement. -/
theorem statementsOf_gap_cons {g : Glyph} (hg : g.isGap = true) (size : Nat) (gs : List Glyph) :
    statementsOf size (g :: gs) = statementsOf size gs := by
  obtain ⟨c, quoted, p⟩ := g
  rw [Glyph.isGap, Bool.and_eq_true, Bool.not_eq_true', beq_iff_eq] at hg
  obtain ⟨hquoted, hc⟩ := hg
  obtain rfl : quoted = false := hquoted
  obtain rfl : c = ' ' := hc
  have hcut : ∀ ends : Int → Bool, cutAfter? ends 0 (⟨' ', false, p⟩ :: gs) =
      (cutAfter? ends 0 gs).map fun cut => (⟨' ', false, p⟩ :: cut.1, cut.2) :=
    fun ends => rfl
  have hdepth : depthAfter (⟨' ', false, p⟩ :: gs) = depthAfter gs := by
    simp [depthAfter, Glyph.turn, Glyph.isCode]
  have hfirst : firstStatement? (⟨' ', false, p⟩ :: gs) =
      (firstStatement? gs).map fun cut => (⟨' ', false, p⟩ :: cut.1, cut.2) := by
    simp only [firstStatement?, hcut, hdepth]
    cases cutAfter? (· ≤ 0) 0 gs with
    | some cut => rfl
    | none =>
      simp only [Option.map_none]
      split <;> rfl
  cases h : firstStatement? gs with
  | none =>
    rw [h] at hfirst
    rw [statementsOf_eq_last hfirst, statementsOf_eq_last h]
    rfl
  | some cut =>
    obtain ⟨first, others⟩ := cut
    rw [h] at hfirst
    rw [statementsOf_eq_cons hfirst, statementsOf_eq_cons h]
    -- the statement begins behind the gap, and ends where it did
    obtain ⟨g, rest, rfl⟩ := List.exists_cons_of_ne_nil (firstStatement?_eq_some h).2
    rfl

theorem statementsOf_gaps_append {gaps : List Glyph} (h : ∀ g ∈ gaps, g.isGap = true)
    (size : Nat) (gs : List Glyph) : statementsOf size (gaps ++ gs) = statementsOf size gs := by
  induction gaps with
  | nil => rfl
  | cons g gaps ih =>
    obtain ⟨hg, hgaps⟩ := List.forall_mem_cons.mp h
    rw [List.cons_append, statementsOf_gap_cons hg, ih hgaps]

/-- **Nothing leaks out of glyphs that end with nothing begun.** -/
theorem statementsOf_append_of_done {gs : List Glyph}
    (h : (Progress.start.after gs).begun = false) (n size : Nat) (hs : List Glyph) :
    statementsOf size (gs ++ hs) = statementsOf n gs ++ statementsOf size hs := by
  induction hlength : gs.length using Nat.strongRecOn generalizing gs with
  | ind length ih =>
    rcases Progress.cutAfter?_of_done h with ⟨-, hgaps⟩ | ⟨first, others, hcut, hothers⟩
    · have hnone := statementsOf_gaps_append hgaps n []
      rw [List.append_nil, statementsOf_nil] at hnone
      rw [hnone, statementsOf_gaps_append hgaps]
      rfl
    · have hshorter : others.length < length := hlength ▸ length_lt_of_cutAfter? hcut
      have hfirst : firstStatement? gs = some (first, others) := by
        simpa using firstStatement?_append hcut []
      rw [statementsOf_eq_cons hfirst, statementsOf_eq_cons (firstStatement?_append hcut hs),
        ih _ hshorter hothers rfl]
      rfl

/-! ## Settled sources -/

/-- Reading the source ends in the open with nothing begun. -/
structure IsSettled (s : List Char) : Prop where
  around : surroundAfter .code s = .code
  done : (Progress.start.after (glyphs s)).begun = false

instance (s : List Char) : Decidable (IsSettled s) :=
  decidable_of_iff (surroundAfter .code s = .code ∧
      (Progress.start.after (glyphs s)).begun = false)
    ⟨fun ⟨around, done⟩ => ⟨around, done⟩, fun ⟨around, done⟩ => ⟨around, done⟩⟩

/-- A settled source parts from whatever follows it. -/
theorem IsSettled.parts {a : List Char} (ha : IsSettled a) (b : List Char) : Parts a b := by
  intro p n size
  obtain ⟨haround, hdone⟩ := ha
  have hdone' : (Progress.start.after (glyphsFrom .code p a)).begun = false := by
    rw [glyphsFrom_origin, Progress.after_shift]
    exact hdone
  have hend : MeetApart (glyphsFrom .code p a) b := by
    intro g hg
    rcases Progress.last_of_done hdone' g hg with hsemicolon | hgap
    · simp only [Glyph.isCode, Bool.and_eq_true, beq_iff_eq] at hsemicolon
      simp [Glyph.isCode, hsemicolon.2]
    · simp only [Glyph.isGap, Bool.and_eq_true, beq_iff_eq] at hgap
      simp [Glyph.isCode, hgap.2]
  rw [glyphsFrom_append_of_code haround hend, statementsOf_append_of_done hdone']

/-! ## Main statement -/

/-- **Statements are isolated.** Behind a settled source anything is read as it is by itself, only
that it stands where the source ends: the fragments of both, and what is built of them, are those
of the one and then those of the other. So a settled text in the middle can be replaced by any
other one, and its neighbours are built as before. -/
theorem scan_append_of_settled {a : String} (ha : IsSettled a.toList) (b : String) :
    scan (a ++ b) = scan a ++ (scan b).map (Fragment.shift (Position.start.after a.toList)) ∧
    (∀ (types : TypeTable) (name : String),
      (Report.ofSource types name (a ++ b)).package.members =
        (Report.ofSource types name a).package.members ++
          (Report.ofSource types name b).package.members ∧
      (Report.ofSource types name (a ++ b)).errors =
        (Report.ofSource types name a).errors ++ (Report.ofSource types name b).errors.map
          (Error.shift (Position.start.after a.toList))) ∧
    ∀ (types : TypeTable) (name middle : String), IsSettled middle.toList →
      (Report.ofSource types name (a ++ (middle ++ b))).package.members =
        (Report.ofSource types name a).package.members ++
          ((Report.ofSource types name middle).package.members ++
            (Report.ofSource types name b).package.members) ∧
      (Report.ofSource types name (a ++ (middle ++ b))).errors.map (·.cause) =
        (Report.ofSource types name a).errors.map (·.cause) ++
          ((Report.ofSource types name middle).errors.map (·.cause) ++
            (Report.ofSource types name b).errors.map (·.cause)) := by
  have hparts (t : String) : Parts a.toList t.toList := ha.parts t.toList
  refine ⟨(hparts b).scan_append, fun types name => ⟨?_, ?_⟩, fun types name middle hmiddle => ?_⟩
  · exact Report.members_append (hparts b) types name
  · exact Report.errors_append (hparts b) types name
  · have hbehind : Parts middle.toList b.toList := hmiddle.parts b.toList
    refine ⟨?_, ?_⟩
    · rw [Report.members_append (hparts _), Report.members_append hbehind]
    · rw [Report.causes_append (hparts _), Report.causes_append hbehind]

/-- A header with a procedure and a comment that looks like code, and behind it a parenthesis that
is never closed. -/
theorem scan_append_of_settled_header :
    let a := "package P is\nprocedure A(x number); -- it's (;\n"
    let b := " procedure B(y;\nfunction C return number;"
    IsSettled a.toList ∧
      scan (a ++ b) = scan a ++ (scan b).map (Fragment.shift ⟨47, 3, 1⟩) ∧
      scan (a ++ b) = [
        ⟨.procedure, "procedure A(x number);", ⟨13, 35, 2, 1⟩, true⟩,
        ⟨.procedure, "procedure B(y;", ⟨48, 62, 3, 2⟩, true⟩,
        ⟨.function, "function C return number;", ⟨63, 88, 4, 1⟩, true⟩] := by
  intro a b
  have ha : IsSettled a.toList := by decide
  have hplace : Position.start.after a.toList = ⟨47, 3, 1⟩ := by decide
  have hscan := (scan_append_of_settled ha b).1
  rw [hplace] at hscan
  refine ⟨ha, hscan, ?_⟩
  decide +kernel

end Source

end StoredRoutine
