import StoredRoutine.Source.Glyph

/-!
# Statements

A source is cut into statements at its semicolons. A semicolon ends a statement unless it stands
inside parentheses that were opened in the statement; parentheses closed without having been
opened do not matter.

A parenthesis that is never closed must not swallow the rest of the source. When the end is
reached with a parenthesis still open, the statement ends at its first semicolon after all, and
what follows is read as if nothing had happened.
-/

namespace StoredRoutine.Source

/-- A statement in normal form: its glyphs with gaps collapsed, the byte offset where it ends in
the source, and whether it ends in its semicolon. -/
structure Statement where
  glyphs : List Glyph
  stop : Nat
  terminated : Bool
  deriving DecidableEq, Repr

/-- The text of a statement. -/
def Statement.text (s : Statement) : List Char := Glyph.text s.glyphs

/-! ## Where a statement ends -/

/-- Cuts after the first unquoted semicolon at a depth that `ends` accepts, where `depth` is the
depth in front of the list. -/
def cutAfter? (ends : Int → Bool) (depth : Int) : List Glyph → Option (List Glyph × List Glyph)
  | [] => none
  | g :: rest =>
    if g.isCode ';' && ends depth then some ([g], rest)
    else (cutAfter? ends (depth + g.turn) rest).map fun (first, others) => (g :: first, others)

/-- Cutting loses nothing, and the first part is not empty. -/
theorem cutAfter?_eq_some {ends : Int → Bool} {depth : Int} {gs first others : List Glyph}
    (h : cutAfter? ends depth gs = some (first, others)) : gs = first ++ others ∧ first ≠ [] := by
  induction gs generalizing depth first with
  | nil => simp [cutAfter?] at h
  | cons g rest ih =>
    simp only [cutAfter?] at h
    split at h
    · simp only [Option.some.injEq, Prod.mk.injEq] at h
      obtain ⟨rfl, rfl⟩ := h
      simp
    · obtain ⟨⟨a, b⟩, hab, heq⟩ := Option.map_eq_some_iff.1 h
      simp only [Prod.mk.injEq] at heq
      obtain ⟨rfl, rfl⟩ := heq
      simp [(ih hab).1]

theorem length_lt_of_cutAfter? {ends : Int → Bool} {depth : Int} {gs first others : List Glyph}
    (h : cutAfter? ends depth gs = some (first, others)) : others.length < gs.length := by
  obtain ⟨rfl, hne⟩ := cutAfter?_eq_some h
  have := List.length_pos_iff.2 hne
  simp only [List.length_append]
  omega

/-- The depth of parentheses after the glyphs. -/
def depthAfter : List Glyph → Int
  | [] => 0
  | g :: rest => g.turn + depthAfter rest

/-- The first statement of the glyphs and what follows it, if a semicolon ends it: the first one
outside parentheses, or the first of all if a parenthesis stays open. -/
def firstStatement? (gs : List Glyph) : Option (List Glyph × List Glyph) :=
  match cutAfter? (· ≤ 0) 0 gs with
  | some cut => some cut
  | none => if 0 < depthAfter gs then cutAfter? (fun _ => true) 0 gs else none

theorem length_lt_of_firstStatement? {gs first others : List Glyph}
    (h : firstStatement? gs = some (first, others)) : others.length < gs.length := by
  unfold firstStatement? at h
  split at h
  · next hc => exact length_lt_of_cutAfter? (hc.trans h)
  · split at h
    · exact length_lt_of_cutAfter? h
    · simp at h

/-! ## Cutting a source -/

/-- The offset right after the last of the glyphs. -/
def stopAfter (gs : List Glyph) : Nat :=
  (gs.getLast?.map fun g => (g.place.next g.char).offset).getD 0

/-- The statements of the glyphs of a source that is `size` bytes long. What follows the last
statement that a semicolon ends is a statement too, unless only gaps are left. -/
def statementsOf (size : Nat) (gs : List Glyph) : List Statement :=
  match _h : firstStatement? gs with
  | some (first, others) => ⟨collapse first, stopAfter first, true⟩ :: statementsOf size others
  | none => match collapse gs with
    | [] => []
    | last => [⟨last, size, false⟩]
termination_by gs.length
decreasing_by exact length_lt_of_firstStatement? _h

/-- The statements of a source. -/
def statements (source : List Char) : List Statement :=
  statementsOf (byteLength source) (glyphs source)

end StoredRoutine.Source
