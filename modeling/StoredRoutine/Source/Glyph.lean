import StoredRoutine.Text.Nesting
import StoredRoutine.Source.Position

/-!
# Glyphs

What a source looks like once its comments are gone: a list of `Glyph`s, the characters that
count, each with its place and with a mark on those that belong to a quoted section.

A run of blanks, and a comment, each leave a gap: an unquoted space. Blanks inside quotes are
kept. How many gaps stand side by side does not matter, since a statement is read with its gaps
collapsed (`collapse`).
-/

namespace StoredRoutine.Source

/-- One character of a source that counts. -/
structure Glyph where
  char : Char
  quoted : Bool
  place : Position
  deriving DecidableEq, Repr

namespace Glyph

/-- What a blank or a comment leaves behind. -/
def gap (p : Position) : Glyph := ⟨' ', false, p⟩

/-- Is the glyph left behind by a blank or a comment? -/
def isGap (g : Glyph) : Bool := !g.quoted && g.char == ' '

/-- Is the glyph the given character, outside quotes? -/
def isCode (c : Char) (g : Glyph) : Bool := !g.quoted && g.char == c

/-- The glyph changes the depth of parentheses by this much. -/
def turn (g : Glyph) : Int :=
  if g.isCode '(' then 1 else if g.isCode ')' then -1 else 0

/-- The characters of a list of glyphs. -/
def text (gs : List Glyph) : List Char := gs.map char

end Glyph

/-! ## Reading a source -/

/-- What surrounds a place of the source. -/
inductive Surround where
  /-- Neither quotes nor a comment. -/
  | code
  /-- A quoted section, opened by the given quote. -/
  | quoted (quote : Char)
  /-- A comment that ends with its line. -/
  | lineComment
  /-- A comment that ends with `*/`. -/
  | blockComment
  deriving DecidableEq, Repr

/-- The glyphs of a source, where `p` is the place of its first character. A comment leaves its
gap at the place where it begins; one that is not closed runs to the end of the source. -/
def glyphsFrom : Surround → Position → List Char → List Glyph
  | _, _, [] => []
  | .code, p, '-' :: '-' :: rest =>
    .gap p :: glyphsFrom .lineComment ((p.next '-').next '-') rest
  | .code, p, '/' :: '*' :: rest =>
    .gap p :: glyphsFrom .blockComment ((p.next '/').next '*') rest
  | .code, p, c :: rest =>
    if Text.isQuote c then ⟨c, true, p⟩ :: glyphsFrom (.quoted c) (p.next c) rest
    else if Text.isBlank c then .gap p :: glyphsFrom .code (p.next c) rest
    else ⟨c, false, p⟩ :: glyphsFrom .code (p.next c) rest
  | .quoted quote, p, c :: rest =>
    ⟨c, true, p⟩ :: glyphsFrom (if c = quote then .code else .quoted quote) (p.next c) rest
  | .lineComment, p, c :: rest =>
    if c = '\n' then .gap p :: glyphsFrom .code (p.next c) rest
    else glyphsFrom .lineComment (p.next c) rest
  | .blockComment, p, '*' :: '/' :: rest =>
    glyphsFrom .code ((p.next '*').next '/') rest
  | .blockComment, p, c :: rest => glyphsFrom .blockComment (p.next c) rest

/-- The glyphs of a whole source. -/
def glyphs (source : List Char) : List Glyph := glyphsFrom .code .start source

/-! ## Collapsing gaps -/

/-- The glyphs without the gaps that follow a gap, `afterGap` saying whether one comes before
the list. -/
def collapseFrom (afterGap : Bool) : List Glyph → List Glyph
  | [] => []
  | g :: rest =>
    if g.isGap && afterGap then collapseFrom afterGap rest else g :: collapseFrom g.isGap rest

/-- The glyphs without the gaps in front, and with one gap in place of several. -/
def collapse (gs : List Glyph) : List Glyph := collapseFrom true gs

end StoredRoutine.Source
