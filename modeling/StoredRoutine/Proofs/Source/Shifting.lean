import StoredRoutine.Proofs.Source.Mapping

/-!
# Reading a text at another place

The same text can stand anywhere in a source. What is read of it does not depend on where it
stands, but for the places: they are shifted to the place where the text begins (`Position.shift`).

So it is for glyphs (`glyphsFrom_shift`), for statements (`statementsOf_shift`) and for fragments
(`Statement.fragment?_shift`). They come together in `filterMap_statementsOf_shift`: the fragments
of a text that begins anywhere are those of the text by itself, shifted.
-/

namespace StoredRoutine.Source

/-! ## Places -/

namespace Position

/-- The place `p` of a text, in a source in which the text begins at `origin`. A column counts
from the beginning of its line, and only the first line of the text may begin before the text. -/
def shift (origin p : Position) : Position where
  offset := origin.offset + p.offset
  line := origin.line + p.line - 1
  column := if p.line = 1 then origin.column + p.column - 1 else p.column

theorem shift_start (origin : Position) : origin.shift start = origin := by
  obtain ⟨offset, line, column⟩ := origin
  simp [shift, start]

/-- Lines and columns are counted from one. -/
structure IsCounted (p : Position) : Prop where
  line : 1 ≤ p.line
  column : 1 ≤ p.column

theorem isCounted_start : IsCounted start := ⟨Nat.le_refl 1, Nat.le_refl 1⟩

theorem IsCounted.next {p : Position} (hp : p.IsCounted) (c : Char) : (p.next c).IsCounted := by
  obtain ⟨hline, hcolumn⟩ := hp
  rw [Position.next]
  split
  · exact ⟨Nat.le_add_left 1 p.line, Nat.le_refl 1⟩
  · exact ⟨hline, Nat.le_add_left 1 p.column⟩

theorem shift_next (origin : Position) {p : Position} (hp : p.IsCounted) (c : Char) :
    (origin.shift p).next c = origin.shift (p.next c) := by
  obtain ⟨offset, line, column⟩ := p
  obtain ⟨hline, hcolumn⟩ := hp
  dsimp only at hline hcolumn
  by_cases hc : c = '\n'
  · -- the next line begins inside the text
    have hnext : line + 1 ≠ 1 := by omega
    simp only [next, shift, hc, if_true, hnext, if_false, Position.mk.injEq]
    exact ⟨by omega, by omega, trivial⟩
  · simp only [next, shift, hc, if_false, Position.mk.injEq]
    refine ⟨by omega, trivial, ?_⟩
    by_cases hfirst : line = 1
    · simp only [hfirst, if_true]
      omega
    · simp only [hfirst, if_false]

end Position

/-- The span of a text, in a source in which the text begins at `origin`. -/
def Span.shift (origin : Position) (span : Span) : Span :=
  let p := origin.shift ⟨span.start, span.line, span.column⟩
  ⟨p.offset, origin.offset + span.stop, p.line, p.column⟩

/-- The fragment of a text, in a source in which the text begins at `origin`. -/
def Fragment.shift (origin : Position) (f : Fragment) : Fragment :=
  { f with span := f.span.shift origin }

/-! ## Glyphs -/

namespace Glyph

/-- The glyph of a text, in a source in which the text begins at `origin`. -/
def shift (origin : Position) (g : Glyph) : Glyph := { g with place := origin.shift g.place }

theorem text_map_shift (origin : Position) (gs : List Glyph) :
    text (gs.map (shift origin)) = text gs := by
  simp [text, shift, Function.comp_def]

end Glyph

/-- **The glyphs of a text, wherever it begins.** -/
theorem glyphsFrom_shift (origin : Position) (around : Surround) {p : Position} (hp : p.IsCounted)
    (s : List Char) :
    glyphsFrom around (origin.shift p) s = (glyphsFrom around p s).map (Glyph.shift origin) := by
  have hnext : ∀ {q : Position} (c : Char), q.IsCounted →
      (origin.shift q).next c = origin.shift (q.next c) ∧ (q.next c).IsCounted :=
    fun c hq => ⟨Position.shift_next origin hq c, hq.next c⟩
  fun_induction glyphsFrom around p s with
  | case1 => rfl
  | case2 p rest ih =>
    obtain ⟨hfirst, hline⟩ := hnext '-' hp
    obtain ⟨hsecond, hline'⟩ := hnext '-' hline
    simp only [glyphsFrom, hfirst, hsecond, ih hline', List.map_cons]
    rfl
  | case3 p rest ih =>
    obtain ⟨hfirst, hline⟩ := hnext '/' hp
    obtain ⟨hsecond, hline'⟩ := hnext '*' hline
    simp only [glyphsFrom, hfirst, hsecond, ih hline', List.map_cons]
    rfl
  | case4 p c rest hdash hslash hquote ih =>
    obtain ⟨hfirst, hline⟩ := hnext c hp
    rw [glyphsFrom, if_pos hquote, hfirst, ih hline, List.map_cons]
    · rfl
    · exact hdash
    · exact hslash
  | case5 p c rest hdash hslash hquote hblank ih =>
    obtain ⟨hfirst, hline⟩ := hnext c hp
    rw [glyphsFrom, if_neg hquote, if_pos hblank, hfirst, ih hline, List.map_cons]
    · rfl
    · exact hdash
    · exact hslash
  | case6 p c rest hdash hslash hquote hblank ih =>
    obtain ⟨hfirst, hline⟩ := hnext c hp
    rw [glyphsFrom, if_neg hquote, if_neg hblank, hfirst, ih hline, List.map_cons]
    · rfl
    · exact hdash
    · exact hslash
  | case7 quote p c rest ih =>
    obtain ⟨hfirst, hline⟩ := hnext c hp
    rw [glyphsFrom, hfirst, ih hline, List.map_cons]
    rfl
  | case8 p rest ih =>
    obtain ⟨hfirst, hline⟩ := hnext '\n' hp
    rw [glyphsFrom, if_pos rfl, hfirst, ih hline, List.map_cons]
    rfl
  | case9 p c rest hc ih =>
    obtain ⟨hfirst, hline⟩ := hnext c hp
    rw [glyphsFrom, if_neg hc, hfirst, ih hline]
  | case10 p rest ih =>
    obtain ⟨hfirst, hline⟩ := hnext '*' hp
    obtain ⟨hsecond, hline'⟩ := hnext '/' hline
    rw [glyphsFrom, hfirst, hsecond, ih hline']
  | case11 p c rest hclose ih =>
    obtain ⟨hfirst, hline⟩ := hnext c hp
    rw [glyphsFrom, hfirst, ih hline]
    exact hclose

/-- A text that begins at `origin`, and not at the beginning of a source. -/
theorem glyphsFrom_origin (origin : Position) (s : List Char) :
    glyphsFrom .code origin s = (glyphs s).map (Glyph.shift origin) := by
  rw [glyphs, ← glyphsFrom_shift origin .code Position.isCounted_start, Position.shift_start]

/-! ## Statements -/

theorem isNeutral_shift (origin : Position) : IsNeutral (Glyph.shift origin) where
  isGap _ := rfl
  isCode _ := rfl
  turn _ := rfl

theorem depthAfter_shift (origin : Position) (gs : List Glyph) :
    depthAfter (gs.map (Glyph.shift origin)) = depthAfter gs :=
  (isNeutral_shift origin).depthAfter_map gs

theorem stopAfter_shift (origin : Position) {gs : List Glyph} (hgs : gs ≠ []) :
    stopAfter (gs.map (Glyph.shift origin)) = origin.offset + stopAfter gs := by
  obtain ⟨front, g, rfl⟩ := (List.eq_nil_or_concat gs).resolve_left hgs
  simp [stopAfter, Glyph.shift, Position.shift, Nat.add_assoc]

/-- The statement of a text, in a source in which the text begins at `origin`. -/
def Statement.shift (origin : Position) (s : Statement) : Statement where
  glyphs := s.glyphs.map (Glyph.shift origin)
  stop := origin.offset + s.stop
  terminated := s.terminated

/-- **The statements of a text, wherever it begins.** -/
theorem statementsOf_shift (origin : Position) (size : Nat) (gs : List Glyph) :
    statementsOf (origin.offset + size) (gs.map (Glyph.shift origin)) =
      (statementsOf size gs).map (Statement.shift origin) :=
  (isNeutral_shift origin).statementsOf_map (stopAfter_shift origin) size gs

/-! ## Fragments -/

/-- **The fragment of a statement, wherever its text begins.** -/
theorem Statement.fragment?_shift (origin : Position) (s : Statement) :
    (s.shift origin).fragment? = s.fragment?.map (Fragment.shift origin) := by
  have htext : (s.shift origin).text = s.text := Glyph.text_map_shift origin s.glyphs
  simp only [fragment?, htext]
  cases declarationStart? (Text.words s.text) with
  | none => rfl
  | some found =>
    obtain ⟨i, kind⟩ := found
    have hglyph : (s.shift origin).glyphs[i]? = s.glyphs[i]?.map (Glyph.shift origin) :=
      List.getElem?_map
    simp only [Option.bind_eq_bind, Option.bind_some, hglyph]
    cases s.glyphs[i]? <;> rfl

/-- **The fragments of a text that begins at `origin`.** -/
theorem filterMap_statementsOf_shift (origin : Position) (s : String) :
    (statementsOf (origin.offset + byteLength s.toList)
        (glyphsFrom .code origin s.toList)).filterMap Statement.fragment? =
      (scan s).map (Fragment.shift origin) := by
  have hfragment : Statement.fragment? ∘ Statement.shift origin =
      fun statement => statement.fragment?.map (Fragment.shift origin) :=
    funext (Statement.fragment?_shift origin)
  rw [glyphsFrom_origin, statementsOf_shift, List.filterMap_map, hfragment, scan, statements,
    List.map_filterMap]

end StoredRoutine.Source
