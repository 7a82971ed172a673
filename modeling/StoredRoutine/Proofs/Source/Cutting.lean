import StoredRoutine.Proofs.Source.Gaps

/-!
# Cutting out a statement

A text on one line that has no semicolon in the open is passed over whole, and so is a gap
(`Passes`). The statement is cut behind the semicolon that follows, and in normal form it holds
the text as it is written, with one space for each gap but the first.
-/

namespace StoredRoutine.Source

open Text

/-! ## Collapsing gaps -/

/-- Behind a gap, gaps do not count. -/
theorem collapseFrom_gaps {gaps : List Glyph} (h : ∀ g ∈ gaps, g.isGap = true) (gs : List Glyph) :
    collapseFrom true (gaps ++ gs) = collapseFrom true gs := by
  induction gaps with
  | nil => rfl
  | cons g gaps ih =>
    obtain ⟨hg, hgaps⟩ := List.forall_mem_cons.mp h
    rw [List.cons_append, collapseFrom, hg, Bool.and_true, if_pos rfl, ih hgaps]

/-- **A text in normal form keeps its spaces**, as they do not stand side by side. Behind a gap it
must not begin with one. -/
theorem collapseFrom_ofText {n : Nesting} {c : Char} {s : List Char} {afterGap : Bool}
    (h : everyOpen (fun _ => isTidyAt) n (c :: s) = true) (hc : afterGap = true → c ≠ ' ')
    (p : Position) (gs : List Glyph) :
    collapseFrom afterGap (ofText n p (c :: s) ++ gs) =
      ofText n p (c :: s) ++ collapseFrom false gs := by
  induction s generalizing n c afterGap p with
  | nil =>
    obtain ⟨htidy, -⟩ := of_everyOpen_cons h
    have hgap : Glyph.isGap ⟨c, (n.depthAt? c).isNone, p⟩ = false := by
      cases hd : n.depthAt? c with
      | none => rfl
      | some d =>
        rw [hd] at htidy
        rw [Glyph.isGap, Option.isNone_some, Bool.not_false, Bool.true_and]
        -- A space would need another character behind it.
        refine Bool.eq_false_iff.mpr fun hspace => ?_
        obtain rfl : c = ' ' := by simpa using hspace
        cases htidy
    rw [ofText, ofText, List.cons_append, List.nil_append, collapseFrom, hgap]
    rfl
  | cons e s ih =>
    obtain ⟨htidy, hs⟩ := of_everyOpen_cons h
    rw [ofText, List.cons_append, collapseFrom, List.cons_append]
    cases hgap : Glyph.isGap ⟨c, (n.depthAt? c).isNone, p⟩ with
    | false =>
      rw [Bool.false_and, if_neg Bool.false_ne_true, ih hs (fun hfalse => by cases hfalse)]
    | true =>
      rw [Glyph.isGap, Bool.and_eq_true, Bool.not_eq_true', beq_iff_eq] at hgap
      obtain ⟨hopen, rfl⟩ := hgap
      obtain ⟨d, hd⟩ := Option.isSome_iff_exists.mp (Option.isNone_eq_false_iff.mp hopen)
      rw [hd] at htidy
      obtain ⟨-, hnext⟩ := eq_space_of_isTidyAt htidy rfl
      -- behind a space there is no other space to be dropped
      have he : e ≠ ' ' := by
        rintro rfl
        cases hnext
      have hfirst : afterGap = false := by
        cases afterGap with
        | false => rfl
        | true => exact absurd rfl (hc rfl)
      rw [hfirst, Bool.and_false, if_neg Bool.false_ne_true, ih hs (fun _ => he)]

theorem collapseFrom_phrase {s : List Char} (h : IsPhrase s) (afterGap : Bool) (p : Position)
    (gs : List Glyph) :
    collapseFrom afterGap (ofText .start p s ++ gs) = ofText .start p s ++ collapseFrom false gs := by
  obtain ⟨c, s, rfl⟩ := List.exists_cons_of_ne_nil h.ne_nil
  refine collapseFrom_ofText h.tidy (fun _ => ?_) p gs
  rintro rfl
  cases h.trimmed.head

/-! ## Finding the semicolon -/

/-- Reading a character in the open changes the depth as its glyph says. -/
theorem depth_step (n : Nesting) (c : Char) (p : Position) :
    n.depth + Glyph.turn ⟨c, (n.depthAt? c).isNone, p⟩ = (n.step c).depth := by
  unfold Nesting.step Nesting.depthAt? Glyph.turn Glyph.isCode
  cases hquote : n.quote with
  | some quote =>
    by_cases hc : c = quote
    · simp [hc]
    · simp [hc]
  | none =>
    by_cases hopens : isQuote c = true
    · simp [hopens]
    · by_cases hopen : c = '('
      · subst hopen
        simp [isQuote]
      · by_cases hclose : c = ')'
        · subst hclose
          simp [isQuote]
          omega
        · simp [hopens, hopen, hclose]

/-- The glyphs are passed over by the search for the end of a statement, which goes on behind them
outside parentheses. -/
def Passes (gs : List Glyph) : Prop :=
  ∀ rest, cutAfter? (· ≤ 0) 0 (gs ++ rest) =
    (cutAfter? (· ≤ 0) 0 rest).map fun (first, others) => (gs ++ first, others)

theorem Passes.append {gs hs : List Glyph} (hgs : Passes gs) (hhs : Passes hs) :
    Passes (gs ++ hs) := by
  intro rest
  rw [List.append_assoc, hgs, hhs, Option.map_map]
  congr 1
  funext cut
  simp

theorem passes_gaps {gaps : List Glyph} (h : ∀ g ∈ gaps, g.isGap = true) : Passes gaps := by
  intro rest
  induction gaps with
  | nil => simp
  | cons g gaps ih =>
    obtain ⟨hg, hgaps⟩ := List.forall_mem_cons.mp h
    obtain ⟨c, quoted, p⟩ := g
    rw [Glyph.isGap, Bool.and_eq_true, Bool.not_eq_true', beq_iff_eq] at hg
    obtain ⟨hquoted, hc⟩ := hg
    obtain rfl : quoted = false := hquoted
    obtain rfl : c = ' ' := hc
    have hturn : (0 : Int) + Glyph.turn ⟨' ', false, p⟩ = 0 := rfl
    rw [List.cons_append, cutAfter?, hturn, ih hgaps, Option.map_map]
    rfl

/-- A text is passed over if its semicolons all stand in parentheses or in quotes. -/
theorem cutAfter?_ofText {n : Nesting} {s : List Char}
    (h : everyOpen (fun d c _ => c != ';' || decide (0 < d)) n s = true) (p : Position)
    (rest : List Glyph) :
    cutAfter? (· ≤ 0) n.depth (ofText n p s ++ rest) =
      (cutAfter? (· ≤ 0) (n.after s).depth rest).map fun (first, others) =>
        (ofText n p s ++ first, others) := by
  induction s generalizing n p with
  | nil => simp [ofText]
  | cons c s ih =>
    obtain ⟨hc, hs⟩ := of_everyOpen_cons h
    have hnot : ¬ (Glyph.isCode ';' ⟨c, (n.depthAt? c).isNone, p⟩ && decide (n.depth ≤ 0)) = true := by
      rw [Bool.and_eq_true, Glyph.isCode, Bool.and_eq_true, Bool.not_eq_true', beq_iff_eq,
        decide_eq_true_eq]
      rintro ⟨⟨hopen, rfl⟩, hdepth⟩
      obtain ⟨d, hd⟩ := Option.isSome_iff_exists.mp (Option.isNone_eq_false_iff.mp hopen)
      have hd' : d = n.depth := (Nesting.of_depthAt?_eq_some hd).2.2
      rw [hd] at hc
      have hpos : 0 < d := by simpa using hc
      omega
    rw [ofText, List.cons_append, cutAfter?, if_neg hnot, depth_step, ih hs, Option.map_map]
    rfl

theorem passes_of_lacks {s : List Char} (hclosed : IsClosed s) (hlacks : Lacks ';' s)
    (p : Position) : Passes (ofText .start p s) := by
  intro rest
  have hunderflow : (Nesting.start.after s).underflow = false := by
    rw [hclosed]
    rfl
  have hinside : everyOpen (fun d c _ => c != ';' || decide (0 < d)) .start s = true := by
    refine everyOpen_mono ?_ (everyOpen_and hlacks (everyOpen_nonneg (by decide) hunderflow))
    intro d c _ hd
    rw [Bool.and_eq_true, Bool.or_eq_true, decide_eq_true_eq] at hd
    obtain ⟨hne | hne, hnonneg⟩ := hd
    · rw [hne]
      rfl
    · have hd : d ≠ 0 := by simpa using hne
      have hpos : 0 < d := by omega
      simp [hpos]
  have hcut := cutAfter?_ofText hinside p rest
  rw [hclosed] at hcut
  exact hcut

theorem passes_ofText {s : List Char} (h : FitsBefore ';' s) (p : Position) :
    Passes (ofText .start p s) :=
  passes_of_lacks h.closed h.lacks p

theorem firstStatement?_of_passes {gs : List Glyph} (h : Passes gs) (p : Position)
    (rest : List Glyph) :
    firstStatement? (gs ++ ⟨';', false, p⟩ :: rest) = some (gs ++ [⟨';', false, p⟩], rest) := by
  have hcut : cutAfter? (· ≤ 0) 0 (gs ++ ⟨';', false, p⟩ :: rest) =
      some (gs ++ [⟨';', false, p⟩], rest) := by
    rw [h]
    rfl
  rw [firstStatement?, hcut]

/-! ## Statements -/

theorem statementsOf_eq_cons {size : Nat} {gs first others : List Glyph}
    (h : firstStatement? gs = some (first, others)) :
    statementsOf size gs =
      ⟨collapse first, stopAfter first, true⟩ :: statementsOf size others := by
  rw [statementsOf]
  split
  · next first' others' heq =>
    obtain ⟨rfl, rfl⟩ := Prod.mk.inj (Option.some.inj (h.symm.trans heq))
    rfl
  · next heq =>
    rw [h] at heq
    cases heq

/-- Where no semicolon ends a statement, what is left is the last one. -/
theorem statementsOf_eq_last {gs : List Glyph} (h : firstStatement? gs = none) (size : Nat) :
    statementsOf size gs = match collapse gs with
      | [] => []
      | last => [⟨last, size, false⟩] := by
  rw [statementsOf]
  split
  · next heq =>
    rw [h] at heq
    cases heq
  · rfl

/-- Cutting off what comes first in a list of glyphs loses nothing, and it is not empty. -/
theorem firstStatement?_eq_some {gs first others : List Glyph}
    (h : firstStatement? gs = some (first, others)) : gs = first ++ others ∧ first ≠ [] := by
  rw [firstStatement?] at h
  split at h
  · next hcut => exact cutAfter?_eq_some (hcut.trans h)
  · split at h
    · exact cutAfter?_eq_some h
    · cases h

@[simp] theorem statementsOf_nil (size : Nat) : statementsOf size [] = [] := by
  have hnone : firstStatement? [] = none := rfl
  rw [statementsOf]
  split
  · next heq =>
    rw [hnone] at heq
    cases heq
  · rfl

/-- The semicolon behind a text. -/
theorem glyphsFrom_semicolon {s : List Char} (h : IsOneLine s) (p : Position) (t : List Char) :
    glyphsFrom .code p (s ++ ';' :: t) =
      ofText .start p s ++ ⟨';', false, p.after s⟩ :: glyphsFrom .code (p.after (s ++ [';'])) t := by
  have hsafe : BeginsSafely (';' :: t) := ⟨by simp, by simp⟩
  have hsemicolon : glyphsFrom .code (p.after s) (';' :: t) =
      ⟨';', false, p.after s⟩ :: glyphsFrom .code ((p.after s).next ';') t := by
    rw [glyphsFrom_code (by simp) (by simp)]
    rfl
  rw [glyphsFrom_code_append h hsafe, hsemicolon, Position.after_append]
  rfl

theorem statementsOf_passes {gs : List Glyph} {text : List Char} {p : Position}
    (h : Passes gs) (htext : Glyph.text (collapse (gs ++ [⟨';', false, p⟩])) = text) (size : Nat)
    (rest : List Glyph) :
    ∃ statement : Statement, statement.text = text ∧ statement.terminated = true ∧
      statementsOf size (gs ++ ⟨';', false, p⟩ :: rest) = statement :: statementsOf size rest :=
  ⟨⟨collapse _, stopAfter _, true⟩, htext, rfl,
    statementsOf_eq_cons (firstStatement?_of_passes h p rest)⟩

/-- The last text of a statement keeps its semicolon. -/
theorem text_collapseFrom_semicolon {s : List Char} (hs : IsPhrase s) (p q : Position) :
    Glyph.text (collapseFrom true (ofText .start p s ++ [⟨';', false, q⟩])) = s ++ [';'] := by
  rw [collapseFrom_phrase hs, Glyph.text, List.map_append]
  exact congrArg (· ++ [';']) (text_ofText _ _ _)

/-- **A statement behind a gap.** -/
theorem statementsOf_gap {s : List Char} (hs : IsPhrase s) (hlacks : Lacks ';' s) (gap : Gap)
    (size : Nat) (p : Position) (t : List Char) :
    ∃ statement : Statement, statement.text = s ++ [';'] ∧ statement.terminated = true ∧
      statementsOf size (glyphsFrom .code p (gap.text ++ (s ++ ';' :: t))) =
        statement :: statementsOf size (glyphsFrom .code ((p.after gap.text).after (s ++ [';'])) t) := by
  obtain ⟨gaps, hgaps, hgap⟩ := gap.glyphsFrom_append p (s ++ ';' :: t)
  have hall : ∀ g ∈ Glyph.gap p :: gaps, g.isGap = true := List.forall_mem_cons.mpr ⟨rfl, hgaps⟩
  have hpasses : Passes (Glyph.gap p :: gaps ++ ofText .start (p.after gap.text) s) :=
    (passes_gaps hall).append (passes_ofText ⟨hs.toIsOneLine, hlacks⟩ _)
  rw [hgap, glyphsFrom_semicolon hs.toIsOneLine, ← List.append_assoc]
  -- the gaps are in front of the statement and are dropped
  refine statementsOf_passes hpasses ?_ size _
  rw [List.append_assoc, collapse, collapseFrom_gaps hall]
  exact text_collapseFrom_semicolon hs _ _

/-- **A statement with a gap in it.** -/
theorem statementsOf_text_gap {lead s : List Char} (hlead : IsPhrase lead)
    (hleadLacks : Lacks ';' lead) (hs : IsPhrase s) (hlacks : Lacks ';' s) (gap : Gap)
    (size : Nat) (p : Position) (t : List Char) :
    ∃ statement : Statement, statement.text = lead ++ ' ' :: (s ++ [';']) ∧
      statement.terminated = true ∧
      statementsOf size (glyphsFrom .code p (lead ++ (gap.text ++ (s ++ ';' :: t)))) =
        statement :: statementsOf size
          (glyphsFrom .code (((p.after lead).after gap.text).after (s ++ [';'])) t) := by
  obtain ⟨gaps, hgaps, hgap⟩ := gap.glyphsFrom_append (p.after lead) (s ++ ';' :: t)
  have hall : ∀ g ∈ Glyph.gap (p.after lead) :: gaps, g.isGap = true :=
    List.forall_mem_cons.mpr ⟨rfl, hgaps⟩
  have hpasses : Passes (ofText .start p lead ++ (Glyph.gap (p.after lead) :: gaps) ++
      ofText .start ((p.after lead).after gap.text) s) :=
    ((passes_ofText ⟨hlead.toIsOneLine, hleadLacks⟩ _).append (passes_gaps hall)).append
      (passes_ofText ⟨hs.toIsOneLine, hlacks⟩ _)
  rw [glyphsFrom_code_append hlead.toIsOneLine (gap.beginsSafely_append _), hgap,
    glyphsFrom_semicolon hs.toIsOneLine, ← List.append_assoc, ← List.append_assoc]
  refine statementsOf_passes hpasses ?_ size _
  rw [List.append_assoc, List.append_assoc, collapse, collapseFrom_phrase hlead, List.cons_append,
    collapseFrom, Bool.and_false, if_neg Bool.false_ne_true]
  -- of the gaps in the middle the first one stays
  have hrest : Glyph.text (collapseFrom true (gaps ++
      (ofText .start ((p.after lead).after gap.text) s ++
        [⟨';', false, ((p.after lead).after gap.text).after s⟩]))) = s ++ [';'] := by
    rw [collapseFrom_gaps hgaps]
    exact text_collapseFrom_semicolon hs _ _
  have hfirst : (ofText .start p lead).map Glyph.char = lead := text_ofText _ _ _
  rw [Glyph.text, List.map_append, List.map_cons, hfirst]
  exact congrArg (lead ++ ' ' :: ·) hrest

end StoredRoutine.Source
