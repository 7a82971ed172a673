import StoredRoutine.Source.Fragment
import StoredRoutine.Proofs.Source.Cutting

/-!
# Changing glyphs one by one

Where a source is cut into statements depends on its gaps, its semicolons and its parentheses. A
change of the glyphs, one by one, that leaves these alone (`IsNeutral`) changes the glyphs of the
statements in the same way, and nothing else about them (`IsNeutral.statementsOf_map`).

Glyphs may be moved to other places or be turned into small letters in this way.
-/

namespace StoredRoutine.Source

/-- A change of glyphs that a reader who looks for the end of a statement does not see. -/
structure IsNeutral (change : Glyph → Glyph) : Prop where
  isGap (g : Glyph) : (change g).isGap = g.isGap
  isCode (g : Glyph) : (change g).isCode ';' = g.isCode ';'
  turn (g : Glyph) : (change g).turn = g.turn

/-- The statement with its glyphs changed and its end moved. -/
def Statement.mapGlyphs (change : Glyph → Glyph) (move : Nat → Nat) (s : Statement) :
    Statement where
  glyphs := s.glyphs.map change
  stop := move s.stop
  terminated := s.terminated

namespace IsNeutral

variable {change : Glyph → Glyph} (h : IsNeutral change)

include h

theorem collapseFrom_map (afterGap : Bool) (gs : List Glyph) :
    collapseFrom afterGap (gs.map change) = (collapseFrom afterGap gs).map change := by
  induction gs generalizing afterGap with
  | nil => rfl
  | cons g gs ih =>
    simp only [List.map_cons, collapseFrom, h.isGap, ih]
    split <;> rfl

theorem cutAfter?_map (ends : Int → Bool) (depth : Int) (gs : List Glyph) :
    cutAfter? ends depth (gs.map change) =
      (cutAfter? ends depth gs).map fun (first, others) => (first.map change, others.map change) := by
  induction gs generalizing depth with
  | nil => rfl
  | cons g gs ih =>
    simp only [List.map_cons, cutAfter?, h.isCode, h.turn, ih]
    split
    · rfl
    · simp [Function.comp_def]

theorem depthAfter_map (gs : List Glyph) : depthAfter (gs.map change) = depthAfter gs := by
  induction gs with
  | nil => rfl
  | cons g gs ih => rw [List.map_cons, depthAfter, depthAfter, h.turn, ih]

theorem firstStatement?_map (gs : List Glyph) :
    firstStatement? (gs.map change) =
      (firstStatement? gs).map fun (first, others) => (first.map change, others.map change) := by
  simp only [firstStatement?, h.cutAfter?_map, h.depthAfter_map]
  cases cutAfter? (· ≤ 0) 0 gs with
  | some cut => rfl
  | none =>
    simp only [Option.map_none]
    split <;> rfl

/-- **The statements of changed glyphs** are the statements of the glyphs, changed. -/
theorem statementsOf_map {move : Nat → Nat}
    (hmove : ∀ {gs : List Glyph}, gs ≠ [] → stopAfter (gs.map change) = move (stopAfter gs))
    (size : Nat) (gs : List Glyph) :
    statementsOf (move size) (gs.map change) =
      (statementsOf size gs).map (Statement.mapGlyphs change move) := by
  fun_induction statementsOf size gs with
  | case1 gs first others hfirst ih =>
    have hchanged := h.firstStatement?_map gs
    rw [hfirst] at hchanged
    rw [statementsOf_eq_cons hchanged, ih, collapse, h.collapseFrom_map,
      hmove (firstStatement?_eq_some hfirst).2, List.map_cons]
    rfl
  | case2 gs hfirst hcollapse =>
    have hchanged := h.firstStatement?_map gs
    rw [hfirst] at hchanged
    rw [statementsOf_eq_last hchanged, collapse, h.collapseFrom_map]
    rw [collapse] at hcollapse
    rw [hcollapse]
    rfl
  | case3 gs hfirst hcollapse =>
    have hchanged := h.firstStatement?_map gs
    rw [hfirst] at hchanged
    rw [statementsOf_eq_last hchanged, collapse, h.collapseFrom_map]
    cases hgs : collapseFrom true gs with
    | nil => exact absurd hgs hcollapse
    | cons g rest =>
      rw [collapse, hgs]
      rfl

end IsNeutral

end StoredRoutine.Source
