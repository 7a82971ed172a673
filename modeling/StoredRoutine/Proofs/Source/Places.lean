import Mathlib.Data.List.Induction
import StoredRoutine.Proofs.Source.NormalForm

/-!
# Where glyphs are read

A glyph that is no gap stands for one character of the source, and its place says where
(`readsAt_of_glyphsFrom_eq`). What is read up to there does not depend on what follows, and what is
read from there on depends on what came before only by the quote that is open. Where none is open, a
text can be read in two (`ReadsInTwo`).
-/

namespace StoredRoutine.Source

open Text

/-! ## Lines and columns -/

namespace Position

theorem line_after (p : Position) (s : List Char) :
    (p.after s).line = p.line + s.count '\n' := by
  induction s generalizing p with
  | nil => rfl
  | cons c s ih =>
    rw [after_cons, ih, List.count_cons, next]
    by_cases hc : c = '\n'
    · simp only [hc, if_true, beq_self_eq_true]
      omega
    · simp [hc]

/-- A column counts the characters behind the last line break. -/
theorem column_after_start (s : List Char) :
    (start.after s).column = 1 + (s.reverse.takeWhile (· ≠ '\n')).length := by
  induction s using List.reverseRecOn with
  | nil => rfl
  | append_singleton s c ih =>
    rw [after_append, after_cons, after_nil, List.reverse_concat, next]
    by_cases hc : c = '\n'
    · simp [hc]
    · simp [hc, ih, Nat.add_assoc]

end Position

/-! ## Reading in two -/

/-- **A text is read in two**, `a` by itself and then `b`: between them nothing is open, and `b`
does not go on with a quoted section that `a` ends with. -/
structure ReadsInTwo (p : Position) (a b : List Char) : Prop where
  glyphs : glyphsFrom .code p (a ++ b) = glyphsFrom .code p a ++ glyphsFrom .code (p.after a) b
  quote : (Nesting.start.after (Glyph.text (glyphsFrom .code p a))).quote = none
  apart : ∀ quote, (Glyph.text (glyphsFrom .code p a)).getLast? = some quote →
    b.head? = some quote → isQuote quote = false

/-! ## Reading up to a glyph -/

/-- **The glyph is read at its place**, behind the glyphs `gs`, where `n` is the nesting in front of
the text. -/
def ReadsAt (n : Nesting) (around : Surround) (p : Position) (s : List Char) (gs : List Glyph)
    (g : Glyph) : Prop :=
  ∃ before rest, s = before ++ g.char :: rest ∧ g.place = p.after before ∧
    ∀ t, glyphsFrom around p (before ++ g.char :: t) =
      gs ++ glyphsFrom (surround (n.after (Glyph.text gs))) g.place (g.char :: t)

/-- The first glyph. -/
theorem ReadsAt.here {n : Nesting} {around : Surround} (hn : surround n = around) (c : Char)
    (quoted : Bool) (p : Position) (rest : List Char) :
    ReadsAt n around p (c :: rest) [] ⟨c, quoted, p⟩ := by
  refine ⟨[], rest, rfl, rfl, fun t => ?_⟩
  rw [← hn]
  rfl

/-- What is read behind characters that are read into `front` whenever the same character follows
them. -/
theorem ReadsAt.behind {n : Nesting} {around around' : Surround} {p : Position}
    {u rest : List Char} (front : List Glyph) {gs : List Glyph} {g : Glyph}
    (h : ReadsAt (n.after (Glyph.text front)) around' (p.after u) rest gs g)
    (hu : ∀ t, t.head? = rest.head? →
      glyphsFrom around p (u ++ t) = front ++ glyphsFrom around' (p.after u) t) :
    ReadsAt n around p (u ++ rest) (front ++ gs) g := by
  obtain ⟨before, rest, rfl, hplace, hreads⟩ := h
  refine ⟨u ++ before, rest, by rw [List.append_assoc], ?_, fun t => ?_⟩
  · rw [hplace, Position.after_append]
  · have hhead : (before ++ g.char :: t).head? = (before ++ g.char :: rest).head? := by
      cases before <;> rfl
    rw [List.append_assoc, hu _ hhead, hreads, Glyph.text_append, Nesting.after_append,
      List.append_assoc]

/-- A glyph is the first one of what is read, or stands behind it. -/
theorem ReadsAt.of_cons {n : Nesting} {around around' : Surround} {p : Position}
    {c : Char} {rest : List Char} {quoted : Bool} {gs gs' hs : List Glyph} {g : Glyph}
    (hn : surround n = around)
    (hc : ∀ t, t.head? = rest.head? → glyphsFrom around p (c :: t) =
      ⟨c, quoted, p⟩ :: glyphsFrom around' (p.next c) t)
    (h : ⟨c, quoted, p⟩ :: gs' = gs ++ g :: hs)
    (ih : ∀ {gs : List Glyph}, gs' = gs ++ g :: hs →
      ReadsAt (n.step c) around' (p.next c) rest gs g) :
    ReadsAt n around p (c :: rest) gs g := by
  cases gs with
  | nil =>
    obtain ⟨rfl, -⟩ := List.cons.inj h
    exact .here hn c quoted p rest
  | cons first gs =>
    obtain ⟨rfl, hrest⟩ := List.cons.inj h
    exact ReadsAt.behind (u := [c]) [⟨c, quoted, p⟩] (ih hrest) hc

/-- What is no gap does not stand in the gap of a blank or of a comment. -/
theorem ReadsAt.of_gap {n : Nesting} {around around' : Surround} {p : Position}
    {u rest : List Char} {gs gs' hs : List Glyph} {g : Glyph} (hn : n.quote = none)
    (hu : ∀ t, t.head? = rest.head? → glyphsFrom around p (u ++ t) =
      .gap p :: glyphsFrom around' (p.after u) t)
    (hg : g.isGap = false) (h : .gap p :: gs' = gs ++ g :: hs)
    (ih : ∀ {gs : List Glyph}, gs' = gs ++ g :: hs → ReadsAt n around' (p.after u) rest gs g) :
    ReadsAt n around p (u ++ rest) gs g := by
  cases gs with
  | nil =>
    obtain ⟨rfl, -⟩ := List.cons.inj h
    cases hg
  | cons first gs =>
    obtain ⟨rfl, hrest⟩ := List.cons.inj h
    have hstep : n.step ' ' = n := Nesting.step_of_plain hn rfl (by decide) (by decide)
    have hafter : n.after (Glyph.text [.gap p]) = n := hstep
    refine ReadsAt.behind [.gap p] ?_ hu
    rw [hafter]
    exact ih hrest

/-- **Where a glyph is read.** -/
theorem readsAt_of_glyphsFrom_eq {n : Nesting} {around : Surround} (hn : n.quote = around.quote?)
    {p : Position} {s : List Char} {gs hs : List Glyph} {g : Glyph}
    (h : glyphsFrom around p s = gs ++ g :: hs) (hg : g.isGap = false) :
    ReadsAt n around p s gs g := by
  have hcode : ∀ {n : Nesting}, n.quote = none → surround n = .code := by
    intro n hn
    rw [surround, hn]
  -- what begins no comment with what follows it begins none with what begins in the same way
  have hopens : ∀ {c d e : Char} {rest t : List Char}, t.head? = rest.head? →
      (∀ others, c = d → rest = e :: others → False) → ¬ (c = d ∧ t.head? = some e) := by
    rintro c d e rest t ht hnot ⟨hc, hnext⟩
    obtain ⟨others, rfl⟩ := List.head?_eq_some_iff.mp (ht.symm.trans hnext)
    exact hnot others hc rfl
  fun_induction glyphsFrom around p s generalizing n gs with
  | case1 => simp at h
  | case2 p rest ih =>
    refine ReadsAt.of_gap (u := ['-', '-']) hn (fun t _ => ?_) hg h fun h => ih hn h
    rw [List.cons_append, List.singleton_append, glyphsFrom]
    rfl
  | case3 p rest ih =>
    refine ReadsAt.of_gap (u := ['/', '*']) hn (fun t _ => ?_) hg h fun h => ih hn h
    rw [List.cons_append, List.singleton_append, glyphsFrom]
    rfl
  | case4 p c rest hdash hslash hquote ih =>
    refine .of_cons (hcode hn) (fun t ht => ?_) h fun h => ih ?_ h
    · rw [glyphsFrom_code (hopens ht hdash) (hopens ht hslash), if_pos hquote]
    · rw [Nesting.quote_step_of_none hn, if_pos hquote]
      rfl
  | case5 p c rest hdash hslash hquote hblank ih =>
    refine ReadsAt.of_gap (u := [c]) hn (fun t _ => ?_) hg h fun h => ih hn h
    exact glyphsFrom_blank hblank p t
  | case6 p c rest hdash hslash hquote hblank ih =>
    refine .of_cons (hcode hn) (fun t ht => ?_) h fun h => ih ?_ h
    · rw [glyphsFrom_code (hopens ht hdash) (hopens ht hslash), if_neg hquote, if_neg hblank]
    · rw [Nesting.quote_step_of_none hn, if_neg hquote]
      rfl
  | case7 quote p c rest ih =>
    have hquoted : surround n = .quoted quote := by
      rw [surround, hn]
      rfl
    refine .of_cons hquoted (fun t _ => by rw [glyphsFrom]) h fun h => ih ?_ h
    rw [Nesting.quote_step_of_some hn]
    split_ifs <;> rfl
  | case8 p rest ih =>
    refine ReadsAt.of_gap (u := ['\n']) hn (fun t _ => ?_) hg h fun h => ih hn h
    rw [List.singleton_append, glyphsFrom, if_pos rfl]
    rfl
  | case9 p c rest hc ih =>
    refine ReadsAt.behind (u := [c]) [] (ih hn h) fun t _ => ?_
    rw [List.singleton_append, glyphsFrom, if_neg hc]
    rfl
  | case10 p rest ih =>
    refine ReadsAt.behind (u := ['*', '/']) [] (ih hn h) fun t _ => ?_
    rw [List.cons_append, List.singleton_append, glyphsFrom]
    rfl
  | case11 p c rest hclose ih =>
    refine ReadsAt.behind (u := [c]) [] (ih hn h) fun t ht => ?_
    rw [List.singleton_append, glyphsFrom]
    · rfl
    · rintro others rfl rfl
      obtain ⟨others', rfl⟩ := List.head?_eq_some_iff.mp ht.symm
      exact hclose others' rfl rfl

end StoredRoutine.Source
