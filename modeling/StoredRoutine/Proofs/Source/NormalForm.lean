import StoredRoutine.Proofs.Source.Shifting
import StoredRoutine.Proofs.Text.Parts

/-!
# The text of a fragment

Whatever the source looks like, the text of a fragment is in normal form. The glyphs of a source
are `Legible`: their marks are those that reading their characters again would give them, blanks in
the open are spaces, and no comment begins among them. This is kept when the glyphs are cut into
statements and when gaps are collapsed, so the text of a statement is loose, if its parentheses are
left aside (`Legible.loose_collapseFrom`).

The semicolons in a statement are deeper in parentheses than the one that ends it
(`deeper_of_firstStatement?`), and a declaration begins with a word, which is outside quotes
(`outside_of_mem_wordsFrom`). If then the parentheses of a fragment balance, its text is a loose
text in which no semicolon stands in the open, with a semicolon behind it
(`exists_loose_of_mem_scan`).
-/

namespace StoredRoutine.Source

open Text

/-! ## Legible glyphs -/

theorem Glyph.text_cons (g : Glyph) (gs : List Glyph) :
    Glyph.text (g :: gs) = g.char :: Glyph.text gs := rfl

theorem Glyph.text_append (gs hs : List Glyph) :
    Glyph.text (gs ++ hs) = Glyph.text gs ++ Glyph.text hs := List.map_append

/-- In the open, a blank is a space, and no comment begins. -/
def isCleanAt (c : Char) (rest : List Char) : Bool :=
  if isBlank c then c == ' '
  else !(c == '-' && rest.head? == some '-') && !(c == '/' && rest.head? == some '*')

/-- The glyphs are those of their own text, where `n` is the nesting in front of it. -/
def Legible : Nesting → List Glyph → Prop
  | _, [] => True
  | n, g :: rest => g.quoted = (n.depthAt? g.char).isNone ∧
      (g.quoted = false → isCleanAt g.char (Glyph.text rest) = true) ∧
      Legible (n.step g.char) rest

/-- Only the quotes matter. -/
theorem isNone_depthAt? (n : Nesting) (c : Char) :
    (n.depthAt? c).isNone = (n.quote.isSome || isQuote c) := by
  unfold Nesting.depthAt?
  by_cases hquoted : (n.quote.isSome || isQuote c) = true
  · rw [if_pos hquoted, hquoted]
    rfl
  · rw [if_neg hquoted, eq_false_of_ne_true hquoted]
    split_ifs <;> rfl

theorem Legible.congr {n m : Nesting} {gs : List Glyph} (h : Legible n gs)
    (hquote : m.quote = n.quote) : Legible m gs := by
  have habove : ∀ {n m : Nesting}, m.quote = n.quote → Nesting.Above (m.depth - n.depth) n m :=
    fun hquote => ⟨hquote, by omega⟩
  induction gs generalizing n m with
  | nil => trivial
  | cons g rest ih =>
    obtain ⟨hmark, hclean, hrest⟩ := h
    refine ⟨?_, hclean, ih hrest ((habove hquote).step g.char).quote⟩
    rw [isNone_depthAt?] at hmark ⊢
    rw [hquote]
    exact hmark

/-- What a glyph in the open is not. -/
theorem Legible.quote_eq_none {n : Nesting} {g : Glyph} {rest : List Glyph}
    (h : Legible n (g :: rest)) (hg : g.quoted = false) :
    n.quote = none ∧ isQuote g.char = false := by
  have hmark := h.1
  rw [hg, isNone_depthAt?, eq_comm, Bool.or_eq_false_iff] at hmark
  exact ⟨by simpa using hmark.1, hmark.2⟩

theorem Legible.left {n : Nesting} {gs hs : List Glyph} (h : Legible n (gs ++ hs)) :
    Legible n gs := by
  induction gs generalizing n with
  | nil => trivial
  | cons g gs ih =>
    obtain ⟨hmark, hclean, hrest⟩ := h
    refine ⟨hmark, fun hg => ?_, ih hrest⟩
    have hclean := hclean hg
    cases gs with
    | cons _ _ => exact hclean
    | nil =>
      unfold isCleanAt at hclean ⊢
      split_ifs at hclean ⊢
      · exact hclean
      · simp [Glyph.text]

theorem Legible.right {n : Nesting} {gs hs : List Glyph} (h : Legible n (gs ++ hs)) :
    Legible (n.after (Glyph.text gs)) hs := by
  induction gs generalizing n with
  | nil => exact h
  | cons g gs ih => exact ih h.2.2

/-! ## The glyphs of a source -/

theorem Legible.gap_cons {n : Nesting} {gs : List Glyph} (hn : n.quote = none)
    (h : Legible n gs) (p : Position) : Legible n (.gap p :: gs) := by
  have hstep : n.step ' ' = n := Nesting.step_of_plain hn rfl (by decide) (by decide)
  refine ⟨?_, fun _ => rfl, ?_⟩
  · rw [isNone_depthAt?, hn]
    rfl
  · have hrest : Legible (n.step ' ') gs := by rwa [hstep]
    exact hrest

/-- What stands first among the glyphs of code is a space, or the first character of the code. -/
theorem head?_text_glyphsFrom_code {p : Position} {s : List Char} {c : Char}
    (h : (Glyph.text (glyphsFrom .code p s)).head? = some c) (hc : c ≠ ' ') :
    s.head? = some c := by
  have hgap : ∀ gs, (Glyph.text (.gap p :: gs)).head? ≠ some c :=
    fun gs hgap => hc (Option.some.inj hgap).symm
  cases s with
  | nil => cases h
  | cons d rest =>
    by_cases hdash : d = '-' ∧ rest.head? = some '-'
    · obtain ⟨rfl, hnext⟩ := hdash
      obtain ⟨rest, rfl⟩ := List.head?_eq_some_iff.mp hnext
      exact absurd h (hgap _)
    · by_cases hslash : d = '/' ∧ rest.head? = some '*'
      · obtain ⟨rfl, hnext⟩ := hslash
        obtain ⟨rest, rfl⟩ := List.head?_eq_some_iff.mp hnext
        exact absurd h (hgap _)
      · rw [glyphsFrom_code hdash hslash] at h
        split_ifs at h
        · exact h
        · exact absurd h (hgap _)
        · exact h

/-- The quote that is open. -/
def Surround.quote? : Surround → Option Char
  | .quoted quote => some quote
  | _ => none

/-- **The glyphs of a source are legible.** -/
theorem legible_glyphsFrom (surrounding : Surround) (p : Position) (s : List Char) :
    ∀ n : Nesting, n.quote = surrounding.quote? → Legible n (glyphsFrom surrounding p s) := by
  fun_induction glyphsFrom surrounding p s with
  | case1 => exact fun n _ => trivial
  | case2 p rest ih => exact fun n hn => (ih n hn).gap_cons hn p
  | case3 p rest ih => exact fun n hn => (ih n hn).gap_cons hn p
  | case4 p c rest _ _ hquote ih =>
    intro n hn
    refine ⟨?_, (fun hopen => by cases hopen), ih _ ?_⟩
    · rw [isNone_depthAt?, hquote, Bool.or_true]
    · rw [Nesting.quote_step_of_none hn, if_pos hquote]
      rfl
  | case5 p c rest _ _ _ _ ih => exact fun n hn => (ih n hn).gap_cons hn p
  | case6 p c rest hdash hslash hquote hblank ih =>
    intro n hn
    refine ⟨?_, fun _ => ?_, ih _ ?_⟩
    · rw [isNone_depthAt?, hn, eq_false_of_ne_true hquote]
      rfl
    · -- what begins no comment in the source begins none among the glyphs
      unfold isCleanAt
      rw [if_neg hblank, Bool.and_eq_true, Bool.not_eq_true', Bool.not_eq_true',
        Bool.and_eq_false_imp, Bool.and_eq_false_imp]
      constructor
      · intro hc
        refine beq_false_of_ne fun hnext => ?_
        obtain ⟨others, rfl⟩ :=
          List.head?_eq_some_iff.mp (head?_text_glyphsFrom_code hnext (by decide))
        exact hdash others (beq_iff_eq.mp hc) rfl
      · intro hc
        refine beq_false_of_ne fun hnext => ?_
        obtain ⟨others, rfl⟩ :=
          List.head?_eq_some_iff.mp (head?_text_glyphsFrom_code hnext (by decide))
        exact hslash others (beq_iff_eq.mp hc) rfl
    · rw [Nesting.quote_step_of_none hn, if_neg hquote]
      rfl
  | case7 quote p c rest ih =>
    intro n hn
    refine ⟨?_, (fun hopen => by cases hopen), ih _ ?_⟩
    · rw [isNone_depthAt?, hn]
      rfl
    · rw [Nesting.quote_step_of_some hn]
      split_ifs <;> rfl
  | case8 p rest ih => exact fun n hn => (ih n hn).gap_cons hn p
  | case9 p c rest _ ih => exact ih
  | case10 p rest ih => exact ih
  | case11 p c rest _ ih => exact ih

/-! ## Collapsing gaps -/

/-- A gap is a space in the open. -/
theorem Legible.gap {n : Nesting} {g : Glyph} {rest : List Glyph} (h : Legible n (g :: rest))
    (hg : g.isGap = true) : g.char = ' ' ∧ n.step g.char = n ∧ n.quote = none := by
  rw [Glyph.isGap, Bool.and_eq_true, Bool.not_eq_true', beq_iff_eq] at hg
  obtain ⟨hquoted, hspace⟩ := hg
  obtain ⟨hnone, -⟩ := h.quote_eq_none hquoted
  rw [hspace]
  exact ⟨rfl, Nesting.step_of_plain hnone rfl (by decide) (by decide), hnone⟩

/-- Gaps that are left out leave no trace. -/
theorem Legible.after_collapseFrom {n : Nesting} {gs : List Glyph} (h : Legible n gs)
    (afterGap : Bool) :
    n.after (Glyph.text (collapseFrom afterGap gs)) = n.after (Glyph.text gs) := by
  induction gs generalizing n afterGap with
  | nil => rfl
  | cons g rest ih =>
    rw [collapseFrom]
    split_ifs with hdrop
    · rw [Bool.and_eq_true] at hdrop
      obtain ⟨-, hstep, -⟩ := h.gap hdrop.1
      have hrest := h.2.2
      have htext : n.after (Glyph.text (g :: rest)) = (n.step g.char).after (Glyph.text rest) := rfl
      rw [hstep] at hrest htext
      rw [htext, ih hrest]
    · exact ih h.2.2 _

/-- What the characters in the open have in common, they have without the gaps, too. -/
theorem Legible.everyOpen_collapseFrom {test : Int → Char → Bool} {n : Nesting} {gs : List Glyph}
    (h : Legible n gs) (hall : everyOpen (fun d c _ => test d c) n (Glyph.text gs) = true)
    (afterGap : Bool) :
    everyOpen (fun d c _ => test d c) n (Glyph.text (collapseFrom afterGap gs)) = true := by
  induction gs generalizing n afterGap with
  | nil => rfl
  | cons g rest ih =>
    obtain ⟨hg, hall⟩ := of_everyOpen_cons hall
    rw [collapseFrom]
    split_ifs with hdrop
    · rw [Bool.and_eq_true] at hdrop
      obtain ⟨-, hstep, -⟩ := h.gap hdrop.1
      have hrest := h.2.2
      rw [hstep] at hrest hall
      exact ih hrest hall _
    · exact everyOpen_cons hg (ih h.2.2 hall _)

theorem head?_collapseFrom_false (gs : List Glyph) :
    (collapseFrom false gs).head? = gs.head? := by
  cases gs with
  | nil => rfl
  | cons g rest => rw [collapseFrom, Bool.and_false, if_neg Bool.false_ne_true, List.head?_cons,
      List.head?_cons]

/-- Behind a gap no blank is left. -/
theorem Legible.head?_collapseFrom_true {n : Nesting} {gs : List Glyph} (h : Legible n gs)
    (hn : n.quote = none) :
    (Glyph.text (collapseFrom true gs)).head?.any isBlank = false := by
  induction gs with
  | nil => rfl
  | cons g rest ih =>
    rw [collapseFrom, Bool.and_true]
    split_ifs with hgap
    · obtain ⟨-, hstep, -⟩ := h.gap hgap
      have hrest := h.2.2
      rw [hstep] at hrest
      exact ih hrest
    · obtain ⟨hmark, hclean, -⟩ := h
      refine eq_false_of_ne_true fun hblank => ?_
      have hblank' : isBlank g.char = true := hblank
      cases hquoted : g.quoted with
      | true =>
        -- in code, what is quoted is the quote that opens a section
        rw [hquoted, isNone_depthAt?, hn, Option.isSome_none, Bool.false_or] at hmark
        rw [isQuote_of_isBlank hblank'] at hmark
        cases hmark
      | false =>
        have hspace := hclean hquoted
        rw [isCleanAt, if_pos hblank'] at hspace
        refine hgap ?_
        rw [Glyph.isGap, hquoted, hspace]
        rfl

/-- **With its gaps collapsed, a text is loose.** -/
theorem Legible.loose_collapseFrom {n : Nesting} {gs : List Glyph} (h : Legible n gs)
    (afterGap : Bool) :
    everyOpen (fun _ => isLooseAt) n (Glyph.text (collapseFrom afterGap gs)) = true := by
  induction gs generalizing n afterGap with
  | nil => rfl
  | cons g rest ih =>
    rw [collapseFrom]
    split_ifs with hdrop
    · rw [Bool.and_eq_true] at hdrop
      obtain ⟨-, hstep, -⟩ := h.gap hdrop.1
      have hrest := h.2.2
      rw [hstep] at hrest
      exact ih hrest _
    · rw [Glyph.text_cons]
      refine everyOpen_cons ?_ (ih h.2.2 _)
      rw [Option.all_eq_true]
      intro d hd
      have hquoted : g.quoted = false := by rw [h.1, hd]; rfl
      have hclean := h.2.1 hquoted
      have hrest := h.2.2
      unfold isCleanAt at hclean
      unfold isLooseAt
      by_cases hblank : isBlank g.char = true
      · rw [if_pos hblank] at hclean ⊢
        have hgap : g.isGap = true := by
          rw [Glyph.isGap, hquoted, hclean]
          rfl
        obtain ⟨-, hstep, hn⟩ := h.gap hgap
        rw [hstep] at hrest
        rw [hgap, hrest.head?_collapseFrom_true hn, hclean]
        rfl
      · have hgap : g.isGap = false := by
          refine eq_false_of_ne_true fun hgap => hblank ?_
          rw [(h.gap hgap).1]
          rfl
        have hhead : (Glyph.text (collapseFrom false rest)).head? = (Glyph.text rest).head? := by
          rw [Glyph.text, Glyph.text, List.head?_map, List.head?_map, head?_collapseFrom_false]
        rw [if_neg hblank] at hclean ⊢
        rw [hgap, hhead]
        exact hclean

theorem collapseFrom_concat {g : Glyph} (hg : g.isGap = false) (gs : List Glyph)
    (afterGap : Bool) :
    collapseFrom afterGap (gs ++ [g]) = collapseFrom afterGap gs ++ [g] := by
  induction gs generalizing afterGap with
  | nil => simp [collapseFrom, hg]
  | cons h gs ih =>
    rw [List.cons_append, collapseFrom, collapseFrom]
    split_ifs
    · exact ih _
    · rw [ih, List.cons_append]

/-! ## Semicolons -/

/-- A semicolon in the open ends the statement at a depth that `ends` accepts. -/
theorem all_depthAt?_semicolon {ends : Int → Bool} {n : Nesting} {g : Glyph}
    (hmark : g.quoted = (n.depthAt? g.char).isNone) :
    ((n.depthAt? g.char).all fun d => g.char != ';' || !ends d) =
      !(g.isCode ';' && ends n.depth) := by
  cases hd : n.depthAt? g.char with
  | none =>
    rw [hd] at hmark
    simp [Glyph.isCode, hmark]
  | some d =>
    rw [hd] at hmark
    by_cases hchar : g.char = ';'
    · have hsame : d = n.depth := by
        rw [hchar] at hd
        exact (Nesting.of_depthAt?_eq_some hd).2.2
      simp [Glyph.isCode, hmark, hchar, hsame]
    · simp [Glyph.isCode, bne, beq_false_of_ne hchar]

/-- **What is passed over.** The semicolons in front of the cut stand at depths that do not end the
statement. -/
theorem Legible.cutAfter?_spec {ends : Int → Bool} {n : Nesting} {gs first others : List Glyph}
    (h : Legible n gs) (hcut : cutAfter? ends n.depth gs = some (first, others)) :
    ∃ w g, first = w ++ [g] ∧ g.isCode ';' = true ∧ ends (n.after (Glyph.text w)).depth = true ∧
      everyOpen (fun d c _ => c != ';' || !ends d) n (Glyph.text w) = true := by
  induction gs generalizing n first with
  | nil => cases hcut
  | cons g rest ih =>
    obtain ⟨hmark, -, hrest⟩ := h
    rw [cutAfter?] at hcut
    split_ifs at hcut with hends
    · obtain ⟨rfl, -⟩ := Prod.mk.inj (Option.some.inj hcut)
      rw [Bool.and_eq_true] at hends
      exact ⟨[], g, rfl, hends.1, hends.2, rfl⟩
    · have hturn : n.depth + g.turn = (n.step g.char).depth := by
        rw [← depth_step n g.char g.place, ← hmark]
      rw [hturn] at hcut
      obtain ⟨⟨first', others'⟩, hcut', heq⟩ := Option.map_eq_some_iff.mp hcut
      obtain ⟨rfl, rfl⟩ := Prod.mk.inj heq
      obtain ⟨w, e, rfl, hsemicolon, hdepth, hw⟩ := ih hrest hcut'
      refine ⟨g :: w, e, rfl, hsemicolon, hdepth, everyOpen_cons ?_ hw⟩
      rw [all_depthAt?_semicolon hmark, eq_false_of_ne_true hends]
      rfl

/-- Nothing ends the statement exactly if its semicolons all stand at depths that do not. -/
theorem Legible.cutAfter?_eq_none_iff {ends : Int → Bool} {n : Nesting} {gs : List Glyph}
    (h : Legible n gs) : cutAfter? ends n.depth gs = none ↔
      everyOpen (fun d c _ => c != ';' || !ends d) n (Glyph.text gs) = true := by
  induction gs generalizing n with
  | nil => exact iff_of_true rfl rfl
  | cons g rest ih =>
    obtain ⟨hmark, -, hrest⟩ := h
    have hturn : n.depth + g.turn = (n.step g.char).depth := by
      rw [← depth_step n g.char g.place, ← hmark]
    rw [cutAfter?, hturn, Glyph.text_cons, everyOpen, all_depthAt?_semicolon hmark]
    split_ifs with hends
    · simp [hends]
    · rw [eq_false_of_ne_true hends, Bool.not_false, Bool.true_and, ← ih hrest,
        Option.map_eq_none_iff]

/-- **The semicolons in a statement** are deeper in parentheses than the one that ends it. -/
theorem deeper_of_firstStatement? {gs first others : List Glyph} (h : Legible .start gs)
    (hfirst : firstStatement? gs = some (first, others)) :
    ∃ w g, first = w ++ [g] ∧ gs = w ++ g :: others ∧ g.isCode ';' = true ∧
      everyOpen (fun d c _ => c != ';' || decide ((Nesting.start.after (Glyph.text w)).depth < d))
        .start (Glyph.text w) = true := by
  unfold firstStatement? at hfirst
  split at hfirst
  · next cut hcut =>
    obtain rfl := Option.some.inj hfirst
    obtain ⟨hgs, -⟩ := cutAfter?_eq_some hcut
    obtain ⟨w, g, rfl, hsemicolon, hdepth, hw⟩ := h.cutAfter?_spec hcut
    refine ⟨w, g, rfl, by rw [hgs, ← List.append_cons], hsemicolon, everyOpen_mono ?_ hw⟩
    intro d c _ hc
    rw [Bool.or_eq_true] at hc ⊢
    refine hc.imp_right fun hd => ?_
    simp only [decide_eq_true_eq, Bool.not_eq_true', decide_eq_false_iff_not] at hdepth hd ⊢
    omega
  · split_ifs at hfirst
    obtain ⟨hgs, -⟩ := cutAfter?_eq_some hfirst
    obtain ⟨w, g, rfl, hsemicolon, -, hw⟩ := h.cutAfter?_spec hfirst
    refine ⟨w, g, rfl, by rw [hgs, ← List.append_cons], hsemicolon, everyOpen_mono ?_ hw⟩
    intro d c _ hc
    rw [Bool.not_true, Bool.or_false] at hc
    rw [hc]
    rfl

/-! ## Statements -/

/-- **The text of a statement that its semicolon ends.** -/
structure Terminated (s : List Char) : Prop where
  loose : everyOpen (fun _ => isLooseAt) .start s = true
  quote : (Nesting.start.after s).quote = none
  deeper : everyOpen (fun d c _ => c != ';' || decide ((Nesting.start.after s).depth < d))
    .start s = true

theorem terminated_of_firstStatement? {gs first others : List Glyph} (h : Legible .start gs)
    (hfirst : firstStatement? gs = some (first, others)) :
    (∃ s, Glyph.text (collapse first) = s ++ [';'] ∧ Terminated s) ∧ Legible .start others := by
  obtain ⟨w, g, rfl, rfl, hsemicolon, hdeeper⟩ := deeper_of_firstStatement? h hfirst
  rw [Glyph.isCode, Bool.and_eq_true, Bool.not_eq_true', beq_iff_eq] at hsemicolon
  obtain ⟨hquoted, hchar⟩ := hsemicolon
  have hw := h.left
  have hg := h.right
  obtain ⟨hquote, -⟩ := hg.quote_eq_none hquoted
  have hgap : g.isGap = false := by
    rw [Glyph.isGap, hchar, hquoted]
    rfl
  have hafter : Nesting.start.after (Glyph.text (collapse w)) =
      Nesting.start.after (Glyph.text w) :=
    hw.after_collapseFrom true
  refine ⟨⟨Glyph.text (collapse w), ?_, hw.loose_collapseFrom true, ?_, ?_⟩, ?_⟩
  · rw [collapse, collapseFrom_concat hgap, Glyph.text_append, Glyph.text_cons, hchar]
    rfl
  · rw [hafter]
    exact hquote
  · rw [hafter]
    exact hw.everyOpen_collapseFrom hdeeper true
  · -- the semicolon leaves the quotes as they are
    refine hg.2.2.congr ?_
    rw [hchar, Nesting.quote_step_of_none hquote]
    rfl

theorem exists_of_mem_statementsOf {size : Nat} {gs : List Glyph} (h : Legible .start gs) :
    ∀ statement ∈ statementsOf size gs, statement.terminated = true →
      ∃ s, statement.text = s ++ [';'] ∧ Terminated s := by
  fun_induction statementsOf size gs with
  | case1 gs first others hfirst ih =>
    obtain ⟨hstatement, hothers⟩ := terminated_of_firstStatement? h hfirst
    intro statement hmem hterminated
    rcases List.mem_cons.mp hmem with rfl | hmem
    · exact hstatement
    · exact ih hothers statement hmem hterminated
  | case2 gs hnone hlast =>
    intro statement hmem
    cases hmem
  | case3 gs hnone hlast =>
    intro statement hmem hterminated
    obtain rfl := List.mem_singleton.mp hmem
    cases hterminated

/-! ## Words -/

/-- The place is in the text, whose own place is `i`, and outside quotes. -/
def Outside (n : Nesting) (i : Nat) (s : List Char) (place : Nat) : Prop :=
  ∃ a b, s = a ++ b ∧ place = i + a.length ∧ (n.after a).quote = none

theorem Outside.here {n : Nesting} (hn : n.quote = none) {i : Nat} {s : List Char} :
    Outside n i s i :=
  ⟨[], s, rfl, rfl, hn⟩

theorem Outside.behind {n : Nesting} {i place : Nat} {a s : List Char}
    (h : Outside (n.after a) (i + a.length) s place) : Outside n i (a ++ s) place := by
  obtain ⟨a', b, rfl, rfl, hquote⟩ := h
  refine ⟨a ++ a', b, (List.append_assoc a a' b).symm, ?_, ?_⟩
  · rw [List.length_append, Nat.add_assoc]
  · rwa [Nesting.after_append]

/-- A quoted section ends in its closing quote, if anything follows it. -/
theorem quote_after_quotedLength {quote : Char} (hquote : isQuote quote = true) {n : Nesting}
    (hn : n.quote = some quote) {s : List Char} (hs : s.drop (quotedLength quote s) ≠ []) :
    (n.after (s.take (quotedLength quote s))).quote = none := by
  fun_induction quotedLength quote s generalizing n with
  | case1 => exact absurd rfl hs
  | case2 c => exact absurd rfl hs
  | case3 c d rest hc ih =>
    rw [Nat.add_comm, List.drop_succ_cons] at hs
    rw [Nat.add_comm, List.take_succ_cons]
    refine ih ?_ hs
    rw [Nesting.quote_step_of_some hn, if_neg hc]
  | case4 c rest hc ih =>
    -- a doubled quote closes the section and opens it again
    rw [Nat.add_comm, List.drop_succ_cons, List.drop_succ_cons] at hs
    rw [Nat.add_comm, List.take_succ_cons, List.take_succ_cons]
    refine ih ?_ hs
    have hclosed : (n.step c).quote = none := by
      rw [Nesting.quote_step_of_some hn, if_pos (Decidable.not_not.mp hc)]
    rw [Nesting.quote_step_of_none hclosed, if_pos hquote]
  | case5 c d rest hc hd =>
    rw [List.take_succ_cons, List.take_zero, Nesting.after_cons, Nesting.after_nil,
      Nesting.quote_step_of_some hn, if_pos (Decidable.not_not.mp hc)]

/-- The words behind a quoted section. -/
theorem outside_of_mem_behindQuotes {n : Nesting} (hn : n.quote = none) {c : Char}
    (hc : isQuote c = true) {i : Nat} {rest : List Char} {word : Nat × List Char}
    (hword : word ∈ wordsFrom (i + (quotedLength c rest + 1)) (rest.drop (quotedLength c rest)))
    (ih : ∀ {m : Nesting}, m.quote = none →
      Outside m (i + (quotedLength c rest + 1)) (rest.drop (quotedLength c rest)) word.1) :
    Outside n i (c :: rest) word.1 := by
  have hne : rest.drop (quotedLength c rest) ≠ [] := by
    intro hnil
    rw [hnil, wordsFrom] at hword
    cases hword
  have hlength : (c :: rest.take (quotedLength c rest)).length = quotedLength c rest + 1 := by
    have hlt : quotedLength c rest < rest.length := by
      simpa using hne
    rw [List.length_cons, List.length_take_of_le (Nat.le_of_lt hlt)]
  have hopened : (n.step c).quote = some c := by
    rw [Nesting.quote_step_of_none hn, if_pos hc]
  have hbehind : Outside (n.after (c :: rest.take (quotedLength c rest)))
      (i + (c :: rest.take (quotedLength c rest)).length) (rest.drop (quotedLength c rest))
      word.1 := by
    rw [hlength]
    exact ih (quote_after_quotedLength hc hopened hne)
  have hparts : c :: rest.take (quotedLength c rest) ++ rest.drop (quotedLength c rest) =
      c :: rest := by
    rw [List.cons_append, List.take_append_drop]
  rw [← hparts]
  exact hbehind.behind

/-- **Words begin outside quotes.** -/
theorem outside_of_mem_wordsFrom {n : Nesting} (hn : n.quote = none) (i : Nat) (s : List Char) :
    ∀ word ∈ wordsFrom i s, Outside n i s word.1 := by
  fun_induction wordsFrom i s generalizing n
  case case1 =>
    intro word hword
    cases hword
  case case2 i rest hquote length others ih =>
    intro word hword
    rcases List.mem_cons.mp hword with rfl | hword
    · exact .here hn
    · exact outside_of_mem_behindQuotes hn hquote hword fun hm => ih hm word hword
  case case3 i c rest hquote length others _ ih =>
    intro word hword
    exact outside_of_mem_behindQuotes hn hquote hword fun hm => ih hm word hword
  case case4 i c rest hquote hc tail ih =>
    intro word hword
    rcases List.mem_cons.mp hword with rfl | hword
    · exact .here hn
    · have hchars : ∀ d ∈ c :: tail, isWordChar d = true :=
        List.forall_mem_cons.mpr ⟨hc, fun d hd => List.all_eq_true.mp List.all_takeWhile d hd⟩
      have hbehind : Outside (n.after (c :: tail)) (i + (c :: tail).length)
          (rest.dropWhile isWordChar) word.1 := by
        rw [after_of_word hchars hn]
        exact ih hn word hword
      have hparts : c :: tail ++ rest.dropWhile isWordChar = c :: rest := by
        rw [List.cons_append, List.takeWhile_append_dropWhile]
      rw [← hparts]
      exact hbehind.behind
  case case5 i c rest hquote hc ih =>
    intro word hword
    have hnext : (n.step c).quote = none := by
      rw [Nesting.quote_step_of_none hn, if_neg hquote]
    have hbehind : Outside (n.after [c]) (i + [c].length) rest word.1 := ih hnext word hword
    exact hbehind.behind

/-! ## Fragments -/

/-- A declaration begins where one of the words does. -/
theorem exists_mem_of_declarationStart? {words : List (Nat × List Char)} {i : Nat} {kind : Kind}
    (h : declarationStart? words = some (i, kind)) : ∃ word ∈ words, word.1 = i := by
  induction words with
  | nil => cases h
  | cons first rest ih =>
    rw [declarationStart?] at h
    split_ifs at h
    · exact ⟨first, List.mem_cons_self, (Prod.mk.inj (Option.some.inj h)).1⟩
    · exact ⟨first, List.mem_cons_self, (Prod.mk.inj (Option.some.inj h)).1⟩
    · exact ⟨first, List.mem_cons_self, (Prod.mk.inj (Option.some.inj h)).1⟩
    · obtain ⟨word, hword, hi⟩ := ih h
      exact ⟨word, List.mem_cons_of_mem first hword, hi⟩

/-- A fragment is what its statement holds behind a place outside quotes. -/
theorem exists_of_fragment? {statement : Statement} {f : Fragment}
    (h : statement.fragment? = some f) :
    ∃ a b, statement.text = a ++ b ∧ b ≠ [] ∧ (Nesting.start.after a).quote = none ∧
      f.text.toList = trimEnd b ∧ f.terminated = statement.terminated := by
  obtain ⟨⟨i, kind⟩, hstart, h⟩ := Option.bind_eq_some_iff.mp h
  obtain ⟨first, hfirst, h⟩ := Option.bind_eq_some_iff.mp h
  cases h
  obtain ⟨word, hword, hi⟩ := exists_mem_of_declarationStart? hstart
  have hstartQuote : Nesting.start.quote = none := rfl
  obtain ⟨a, b, hparts, hplace, hquote⟩ :=
    outside_of_mem_wordsFrom hstartQuote 0 statement.text word hword
  obtain rfl : i = a.length := by rw [← hi, hplace, Nat.zero_add]
  refine ⟨a, b, hparts, ?_, hquote, ?_, rfl⟩
  · -- there is a glyph at the place
    rintro rfl
    obtain ⟨hlt, -⟩ := List.getElem?_eq_some_iff.mp hfirst
    have hlength : statement.glyphs.length = a.length := by
      rw [← List.append_nil a, ← hparts, Statement.text, Glyph.text, List.length_map]
    omega
  · rw [String.toList_ofList, hparts, List.drop_left]

/-- Behind a place outside quotes, a text that its semicolon ends is loose if its parentheses
balance, and none of its semicolons stands in the open. -/
theorem Terminated.isLoose_right {a b : List Char} (h : Terminated (a ++ b))
    (ha : (Nesting.start.after a).quote = none) (hbalanced : isBalanced (b ++ [';']) = true) :
    IsLoose b ∧ Lacks ';' b := by
  obtain ⟨hloose, hquote, hdeeper⟩ := h
  -- the nesting behind `a` is the one at the start, with parentheses around it
  have habove : Nesting.Above (-(Nesting.start.after a).depth) (Nesting.start.after a) .start :=
    ⟨ha.symm, (Int.add_right_neg _).symm⟩
  obtain ⟨hquoteB, hdepthB⟩ := habove.after b
  rw [← Nesting.after_append] at hquoteB hdepthB
  rw [hquote] at hquoteB
  have hsemicolon : (Nesting.start.after b).step ';' = Nesting.start.after b :=
    Nesting.step_of_plain hquoteB rfl (by decide) (by decide)
  have hclosed : IsClosed b := by
    rw [isBalanced, Nesting.after_append, Nesting.after_cons, Nesting.after_nil, hsemicolon,
      Nesting.isLevel, Bool.and_eq_true, beq_iff_eq, Bool.not_eq_true'] at hbalanced
    exact isClosed_iff.mpr ⟨hquoteB, hbalanced⟩
  refine ⟨⟨hclosed, everyOpen_above habove (everyOpen_right hloose)⟩, ?_⟩
  refine everyOpen_above habove (everyOpen_mono ?_ (everyOpen_right hdeeper))
  intro d c _ hc
  rw [hclosed] at hdepthB
  have hstart : Nesting.start.depth = 0 := rfl
  rw [Bool.or_eq_true, decide_eq_true_eq] at hc
  rw [Bool.or_eq_true]
  exact hc.imp_right fun hd => bne_iff_ne.mpr (by omega)

/-- A fragment that is terminated is the end of a statement that its semicolon ends. -/
theorem exists_terminated_of_mem_scan {source : String} {f : Fragment} (hf : f ∈ scan source)
    (hterminated : f.terminated = true) :
    ∃ a s, f.text.toList = s ++ [';'] ∧ Terminated (a ++ s) ∧
      (Nesting.start.after a).quote = none := by
  obtain ⟨statement, hstatement, hfragment⟩ := List.mem_filterMap.mp hf
  obtain ⟨a, b, hparts, hb, ha, htext, hsame⟩ := exists_of_fragment? hfragment
  obtain ⟨s, hs, hspec⟩ := exists_of_mem_statementsOf (legible_glyphsFrom .code .start source.toList
    .start rfl) statement hstatement (hsame.symm.trans hterminated)
  -- the semicolon is the last character behind the place
  obtain ⟨b, c, rfl⟩ := (List.eq_nil_or_concat b).resolve_left hb
  rw [List.concat_eq_append] at *
  rw [hs, ← List.append_assoc] at hparts
  obtain ⟨rfl, hc⟩ := List.append_inj' hparts rfl
  obtain rfl := (List.cons.inj hc).1
  have htrim : trimEnd (b ++ [';']) = b ++ [';'] := trimEnd_eq_self (by simp [isBlank])
  rw [htrim] at htext
  exact ⟨a, b, htext, hspec, ha⟩

/-- **The text of a fragment.** -/
theorem exists_loose_of_mem_scan {source : String} {f : Fragment} (hf : f ∈ scan source)
    (hterminated : f.terminated = true) (hbalanced : isBalanced f.text.toList = true) :
    ∃ s, f.text.toList = s ++ [';'] ∧ IsLoose s ∧ Lacks ';' s := by
  obtain ⟨a, b, htext, hspec, ha⟩ := exists_terminated_of_mem_scan hf hterminated
  rw [htext] at hbalanced
  exact ⟨b, htext, hspec.isLoose_right ha hbalanced⟩

end StoredRoutine.Source
