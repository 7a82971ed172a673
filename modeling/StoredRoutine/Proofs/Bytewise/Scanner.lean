import StoredRoutine.Proofs.Bytewise.Words
import StoredRoutine.Proofs.Source.Gaps
import StoredRoutine.Proofs.Source.NormalForm

/-!
# The scanner by its steps

A scanner goes over a source character by character, each step being a slice of what is left, and
copies what counts into a buffer: the normalized text, and for each of its bytes the place that the
byte has in the source. What it copies are the glyphs of the source (`copiesNext`), and what is then
in the buffer are these glyphs with gaps collapsed (`lay_eq`).
-/

namespace StoredRoutine.Bytewise

open Source (byteLength Position Glyph Surround glyphsFrom depthAfter collapseFrom Legible)
open Text (isQuote isBlank)

/-! ## Buffers -/

/-- A normalized text, and the place of each of its bytes in the source. -/
structure Buffer where
  text : List Char
  positions : List Position

namespace Buffer

/-- Nothing has been copied. -/
def empty : Buffer := ⟨[], []⟩

/-- Copies a character, which has the same place for each of its bytes. -/
def push (b : Buffer) (c : Char) (p : Position) : Buffer :=
  ⟨b.text ++ [c], b.positions ++ List.replicate c.utf8Size p⟩

/-- Copies a space, unless the text is empty or ends in one. -/
def pushSpace (b : Buffer) (p : Position) : Buffer :=
  if b.text.getLast?.all (· == ' ') then b else b.push ' ' p

/-- Copies glyphs. -/
def lay (b : Buffer) (gs : List Glyph) : Buffer :=
  gs.foldl (fun b g => if g.isGap then b.pushSpace g.place else b.push g.char g.place) b

/-- The text of some glyphs with their places. -/
def ofGlyphs (gs : List Glyph) : Buffer :=
  ⟨Glyph.text gs, gs.flatMap fun g => List.replicate g.char.utf8Size g.place⟩

theorem lay_append (b : Buffer) (gs hs : List Glyph) : b.lay (gs ++ hs) = (b.lay gs).lay hs :=
  List.foldl_append

theorem push_ofGlyphs (gs : List Glyph) (g : Glyph) :
    (ofGlyphs gs).push g.char g.place = ofGlyphs (gs ++ [g]) := by
  simp [push, ofGlyphs, Glyph.text]

/-- A space behind which no quoted section is open is a gap. -/
theorem isGap_of_space {n : Text.Nesting} (quotes : ∀ q ∈ n.quote, isQuote q = true) {g : Glyph}
    {gs : List Glyph} (h : Legible n (g :: gs)) (space : g.char = ' ')
    (outside : (n.step g.char).quote = none) : g.isGap = true := by
  have mark := h.1
  rw [Source.isNone_depthAt?, space] at mark
  rw [space] at outside
  have unquoted : g.quoted = false := by
    rw [mark]
    cases hn : n.quote with
    | none => rfl
    | some quote =>
      have other : ' ' ≠ quote := by
        rintro rfl
        exact absurd (quotes ' ' hn) (by decide)
      rw [Text.Nesting.quote_step_of_some hn, if_neg other] at outside
      cases outside
  simp [Glyph.isGap, unquoted, space]

/-- **Copying collapses gaps.** Whether a gap comes last is told by the text alone: a space that
belongs to a quoted section is never followed by a gap, since the section has not ended. -/
theorem lay_eq {n : Text.Nesting} (quotes : ∀ q ∈ n.quote, isQuote q = true) {gs : List Glyph}
    (h : Legible n gs) (hs : List Glyph) (afterGap : Bool)
    (last : n.quote = none → (ofGlyphs hs).text.getLast?.all (· == ' ') = afterGap) :
    (ofGlyphs hs).lay gs = ofGlyphs (hs ++ collapseFrom afterGap gs) := by
  induction gs generalizing n hs afterGap with
  | nil => rw [collapseFrom, List.append_nil]; rfl
  | cons g gs ih =>
    have step (b : Buffer) : b.lay (g :: gs)
        = (if g.isGap then b.pushSpace g.place else b.push g.char g.place).lay gs := rfl
    rw [step, collapseFrom]
    by_cases gap : g.isGap = true
    · obtain ⟨space, same, outside⟩ := h.gap gap
      have tail : Legible n gs := by rw [← same]; exact h.2.2
      rw [if_pos gap, gap, Bool.true_and, pushSpace, last outside]
      cases afterGap with
      | true => exact ih quotes tail hs true last
      | false =>
        have laid := ih quotes tail (hs ++ [g]) true fun _ => by simp [ofGlyphs, Glyph.text, space]
        rw [List.append_assoc, List.singleton_append] at laid
        rw [if_neg Bool.false_ne_true, if_neg Bool.false_ne_true, ← space, push_ofGlyphs]
        exact laid
    · have tail := h.2.2
      have quotesNext : ∀ q ∈ (n.after [g.char]).quote, isQuote q = true :=
        Text.isQuote_of_after quotes [g.char]
      have laid := ih quotesNext tail (hs ++ [g]) false fun outside => by
        have shown : (ofGlyphs (hs ++ [g])).text.getLast? = some g.char := by
          simp [ofGlyphs, Glyph.text]
        rw [shown, Option.all_some]
        exact beq_eq_false_iff_ne.2 fun space => gap (isGap_of_space quotes h space outside)
      rw [List.append_assoc, List.singleton_append] at laid
      rw [if_neg gap, push_ofGlyphs, laid, eq_false_of_ne_true gap]
      rfl

end Buffer

/-! ## Scanners -/

/-- What a scanner has in front of it, and where it stands. -/
structure Scanner where
  rest : List Char
  place : Position

namespace Scanner

/-- The scanner in front of a whole source. -/
def start (source : List Char) : Scanner := ⟨source, .start⟩

/-- Goes past the next character. -/
def advance (sc : Scanner) : Checked Scanner :=
  match sc.rest with
  | [] => return sc
  | c :: _ => do
    let rest ← sliceFrom sc.rest c.utf8Size
    return ⟨rest, sc.place.next c⟩

theorem advance_cons (c : Char) (t : List Char) (p : Position) :
    advance ⟨c :: t, p⟩ = .ok ⟨t, p.next c⟩ := by
  have behind := sliceFrom_append [c] t
  rw [Source.byteLength_cons, Source.byteLength_nil] at behind
  rw [advance]
  exact congrArg (· >>= _) behind

theorem lt_of_advance {sc next : Scanner} {c : Char} {t : List Char} (h : sc.rest = c :: t)
    (found : sc.advance = .ok next) : next.rest.length < sc.rest.length := by
  obtain ⟨rest, p⟩ := sc
  subst h
  rw [advance_cons] at found
  obtain rfl := Except.ok.inj found
  exact Nat.lt_succ_self _

/-- Skips the rest of a comment that ends with its line. -/
def skipLine (sc : Scanner) : Checked Scanner :=
  match _h : sc.rest with
  | [] => return sc
  | c :: _ => if c = '\n' then return sc else follow sc.advance fun next _found => next.skipLine
termination_by sc.rest.length
decreasing_by exact lt_of_advance _h _found

/-- Skips the rest of a comment that ends with `*/`. -/
def skipBlock (sc : Scanner) : Checked Scanner :=
  match _h : sc.rest with
  | [] => return sc
  | c :: t =>
    if c = '*' ∧ t.head? = some '/' then do
      let next ← sc.advance
      next.advance
    else follow sc.advance fun next _found => next.skipBlock
termination_by sc.rest.length
decreasing_by exact lt_of_advance _h _found

/-- Copies the rest of a quoted section. A doubled quote does not end it. -/
def copyQuoted (quote : Char) (sc : Scanner) (into : Buffer) : Checked (Scanner × Buffer) :=
  match _h : sc.rest with
  | [] => return (sc, into)
  | c :: _ =>
    follow sc.advance fun next _found =>
      if c = quote then
        match _h' : next.rest with
        | [] => return (next, into.push c sc.place)
        | d :: _ =>
          if d = quote then
            follow next.advance fun behind _found' =>
              copyQuoted quote behind ((into.push c sc.place).push quote next.place)
          else return (next, into.push c sc.place)
      else copyQuoted quote next (into.push c sc.place)
termination_by sc.rest.length
decreasing_by
  · exact Nat.lt_trans (lt_of_advance _h' _found') (lt_of_advance _h _found)
  · exact lt_of_advance _h _found

/-- The scanner `next` stands behind what has the glyphs `gs`, if `sc` stands inside of
`around`. -/
structure Moves (around : Surround) (sc next : Scanner) (gs : List Glyph) : Prop where
  glyphs : glyphsFrom around sc.place sc.rest = gs ++ glyphsFrom .code next.place next.rest
  length : next.rest.length ≤ sc.rest.length
  stop : next.place.offset + byteLength next.rest = sc.place.offset + byteLength sc.rest

theorem stop_cons (c : Char) (t : List Char) (p : Position) :
    (p.next c).offset + byteLength t = p.offset + byteLength (c :: t) := by
  rw [Position.offset_next, Source.byteLength_cons, Nat.add_assoc]

/-- The line break behind a comment leaves its gap as any other does. -/
theorem exists_skipLine (sc : Scanner) :
    ∃ next, sc.skipLine = .ok next ∧ Moves .lineComment sc next [] := by
  obtain ⟨s, p⟩ := sc
  induction s generalizing p with
  | nil => exact ⟨⟨[], p⟩, by rw [skipLine]; rfl, rfl, Nat.le_refl _, rfl⟩
  | cons c t ih =>
    rw [skipLine]
    by_cases line : c = '\n'
    · subst line
      exact ⟨_, if_pos rfl, rfl, Nat.le_refl _, rfl⟩
    · obtain ⟨next, found, glyphs, length, stop⟩ := ih (p.next c)
      refine ⟨next, ?_, ?_, Nat.le_succ_of_le length, stop.trans (stop_cons c t p)⟩
      · dsimp only
        rw [if_neg line, follow_eq (advance_cons c t p), found]
      · rw [← glyphs]
        simp [glyphsFrom, line]

theorem glyphsFrom_block {c : Char} {t : List Char} (h : ¬ (c = '*' ∧ t.head? = some '/'))
    (p : Position) :
    glyphsFrom .blockComment p (c :: t) = glyphsFrom .blockComment (p.next c) t := by
  rw [glyphsFrom]
  rintro others rfl rfl
  exact h ⟨rfl, rfl⟩

theorem exists_skipBlock (sc : Scanner) :
    ∃ next, sc.skipBlock = .ok next ∧ Moves .blockComment sc next [] := by
  obtain ⟨s, p⟩ := sc
  induction s generalizing p with
  | nil => exact ⟨⟨[], p⟩, by rw [skipBlock]; rfl, rfl, Nat.le_refl _, rfl⟩
  | cons c t ih =>
    rw [skipBlock]
    by_cases ends : c = '*' ∧ t.head? = some '/'
    · obtain ⟨rfl, slash⟩ := ends
      obtain ⟨u, rfl⟩ := List.head?_eq_some_iff.1 slash
      refine ⟨⟨u, (p.next '*').next '/'⟩, ?_, rfl, ?_, ?_⟩
      · dsimp only
        rw [if_pos ⟨rfl, rfl⟩, advance_cons, ok_bind, advance_cons]
      · exact Nat.le_succ_of_le (Nat.le_succ _)
      · exact (stop_cons '/' u _).trans (stop_cons '*' ('/' :: u) p)
    · obtain ⟨next, found, glyphs, length, stop⟩ := ih (p.next c)
      refine ⟨next, ?_, ?_, Nat.le_succ_of_le length, stop.trans (stop_cons c t p)⟩
      · dsimp only
        rw [if_neg ends, follow_eq (advance_cons c t p), found]
      · rw [← glyphs]
        exact glyphsFrom_block ends p

/-- Inside quotes, each character is copied. -/
theorem Moves.quoted {quote c : Char} (h : c ≠ quote) {t : List Char} {p : Position}
    {next : Scanner} {gs : List Glyph} (moves : Moves (.quoted quote) ⟨t, p.next c⟩ next gs) :
    Moves (.quoted quote) ⟨c :: t, p⟩ next (⟨c, true, p⟩ :: gs) where
  glyphs := by rw [List.cons_append, ← moves.glyphs, glyphsFrom, if_neg h]
  length := Nat.le_succ_of_le moves.length
  stop := moves.stop.trans (stop_cons c t p)

/-- The quote closes the section. -/
theorem moves_closed (c : Char) (t : List Char) (p : Position) :
    Moves (.quoted c) ⟨c :: t, p⟩ ⟨t, p.next c⟩ [⟨c, true, p⟩] where
  glyphs := by rw [glyphsFrom, if_pos rfl]; rfl
  length := Nat.le_succ _
  stop := stop_cons c t p

/-- A doubled quote closes the section and opens the next one at once. -/
theorem Moves.doubled {c : Char} (hquote : isQuote c = true) {t : List Char} {p : Position}
    {next : Scanner} {gs : List Glyph} (moves : Moves (.quoted c) ⟨t, (p.next c).next c⟩ next gs) :
    Moves (.quoted c) ⟨c :: c :: t, p⟩ next (⟨c, true, p⟩ :: ⟨c, true, p.next c⟩ :: gs) where
  glyphs := by
    have opened : glyphsFrom .code (p.next c) (c :: t)
        = ⟨c, true, p.next c⟩ :: glyphsFrom (.quoted c) ((p.next c).next c) t :=
      (Source.glyphsFrom_code (fun h => by rw [h.1] at hquote; cases hquote)
        (fun h => by rw [h.1] at hquote; cases hquote)).trans (if_pos hquote)
    rw [List.cons_append, List.cons_append, ← moves.glyphs, glyphsFrom, if_pos rfl, opened]
  length := Nat.le_succ_of_le (Nat.le_succ_of_le moves.length)
  stop := moves.stop.trans ((stop_cons c t _).trans (stop_cons c (c :: t) p))

/-- What is copied of a quoted section. -/
theorem exists_copyQuoted {quote : Char} (hquote : isQuote quote = true) (sc : Scanner) :
    ∃ next gs, (∀ into, copyQuoted quote sc into = .ok (next, into.lay gs)) ∧
      Moves (.quoted quote) sc next gs ∧ ∀ g ∈ gs, g.quoted = true := by
  induction size : sc.rest.length using Nat.strongRecOn generalizing sc with
  | ind k ih =>
    obtain ⟨s, p⟩ := sc
    subst size
    cases s with
    | nil =>
      exact ⟨⟨[], p⟩, [], fun into => by rw [copyQuoted]; rfl, ⟨rfl, Nat.le_refl _, rfl⟩,
        fun g hg => by cases hg⟩
    | cons c t =>
      by_cases closes : c = quote
      · subst closes
        cases t with
        | nil =>
          refine ⟨_, _, fun into => ?_, moves_closed c [] p, by simp⟩
          rw [copyQuoted]
          dsimp only
          rw [follow_eq (advance_cons c [] p), if_pos rfl]
          rfl
        | cons d u =>
          by_cases again : d = c
          · subst again
            obtain ⟨next, gs, copied, moves, quoted⟩ :=
              ih u.length (Nat.lt_succ_of_lt (Nat.lt_succ_self _)) ⟨u, (p.next d).next d⟩ rfl
            refine ⟨next, _, fun into => ?_, moves.doubled hquote, by simpa using quoted⟩
            rw [copyQuoted]
            dsimp only
            rw [follow_eq (advance_cons d (d :: u) p), if_pos rfl]
            dsimp only
            rw [if_pos rfl, follow_eq (advance_cons d u (p.next d)), copied]
            rfl
          · refine ⟨_, _, fun into => ?_, moves_closed c (d :: u) p, by simp⟩
            rw [copyQuoted]
            dsimp only
            rw [follow_eq (advance_cons c (d :: u) p), if_pos rfl]
            dsimp only
            rw [if_neg again]
            rfl
      · obtain ⟨next, gs, copied, moves, quoted⟩ :=
          ih t.length (Nat.lt_succ_self _) ⟨t, p.next c⟩ rfl
        refine ⟨next, _, fun into => ?_, moves.quoted closes, by simpa using quoted⟩
        rw [copyQuoted]
        dsimp only
        rw [follow_eq (advance_cons c t p), if_neg closes, copied]
        rfl

/-! ## Copying -/

/-- Copies what is next: a comment or a blank as a space, a quoted section as it is written, and
any other character by itself. -/
def copyNext (sc : Scanner) (into : Buffer) : Checked (Scanner × Buffer) :=
  match sc.rest with
  | [] => return (sc, into)
  | c :: t =>
    if c = '-' ∧ t.head? = some '-' then do
      let next ← sc.skipLine
      return (next, into.pushSpace sc.place)
    else if c = '/' ∧ t.head? = some '*' then do
      let second ← sc.advance
      let inside ← second.advance
      let next ← inside.skipBlock
      return (next, into.pushSpace sc.place)
    else do
      let next ← sc.advance
      if isQuote c then copyQuoted c next (into.push c sc.place)
      else if isBlank c then return (next, into.pushSpace sc.place)
      else return (next, into.push c sc.place)

/-- How the depth of parentheses changes at a character in the open. -/
def turn (c : Char) : Int := if c = '(' then 1 else if c = ')' then -1 else 0

theorem skipLine_cons {c : Char} (h : c ≠ '\n') (t : List Char) (p : Position) :
    skipLine ⟨c :: t, p⟩ = skipLine ⟨t, p.next c⟩ := by
  rw [skipLine]
  dsimp only
  rw [if_neg h, follow_eq (advance_cons c t p)]

/-- What is copied in one go: glyphs of which none ends a statement. -/
structure Copies (sc next : Scanner) (gs : List Glyph) (change : Int) : Prop where
  moves : Moves .code sc next gs
  shorter : next.rest.length < sc.rest.length
  runs : ∀ g ∈ gs, g.isCode ';' = false
  depth : depthAfter gs = change

theorem depthAfter_quoted {gs : List Glyph} (h : ∀ g ∈ gs, g.quoted = true) :
    (∀ g ∈ gs, g.isCode ';' = false) ∧ depthAfter gs = 0 := by
  have code (g : Glyph) (hg : g ∈ gs) (c : Char) : g.isCode c = false := by
    simp [Glyph.isCode, h g hg]
  refine ⟨fun g hg => code g hg ';', ?_⟩
  induction gs with
  | nil => rfl
  | cons g gs ih =>
    have turn : g.turn = 0 := by
      simp [Glyph.turn, code g List.mem_cons_self]
    rw [depthAfter, turn, ih (fun g hg => h g (List.mem_cons_of_mem _ hg))
      fun g hg => code g (List.mem_cons_of_mem _ hg)]
    rfl

/-- What the scanner copies next, whatever has been copied before. -/
def CopiesNext (c : Char) (t : List Char) (p : Position) : Prop :=
  ∃ next gs, (∀ into, copyNext ⟨c :: t, p⟩ into = .ok (next, into.lay gs)) ∧
    Copies ⟨c :: t, p⟩ next gs (turn c)

theorem copies_single {c : Char} {t : List Char} {p : Position} {g : Glyph} {change : Int}
    (glyphs : glyphsFrom .code p (c :: t) = g :: glyphsFrom .code (p.next c) t)
    (runs : g.isCode ';' = false) (depth : g.turn = change) :
    Copies ⟨c :: t, p⟩ ⟨t, p.next c⟩ [g] change where
  moves := ⟨glyphs, Nat.le_succ _, stop_cons c t p⟩
  shorter := Nat.lt_succ_self _
  runs := by simpa using runs
  depth := by simpa [depthAfter] using depth

/-- A comment is copied as the gap that it leaves. -/
theorem copies_gap {around : Surround} {c d : Char} {u : List Char} {p : Position} {next : Scanner}
    (glyphs : glyphsFrom .code p (c :: d :: u)
      = .gap p :: glyphsFrom around ((p.next c).next d) u)
    (skipped : Moves around ⟨u, (p.next c).next d⟩ next []) :
    Copies ⟨c :: d :: u, p⟩ next [.gap p] 0 where
  moves := {
    glyphs := glyphs.trans (congrArg (Glyph.gap p :: ·) skipped.glyphs)
    length := Nat.le_succ_of_le (Nat.le_succ_of_le skipped.length)
    stop := skipped.stop.trans ((stop_cons d u _).trans (stop_cons c (d :: u) p))
  }
  shorter := Nat.lt_succ_of_le (Nat.le_succ_of_le skipped.length)
  runs g hg := by
    rw [List.mem_singleton.1 hg]
    rfl
  depth := rfl

theorem copiesNext_line (u : List Char) (p : Position) : CopiesNext '-' ('-' :: u) p := by
  obtain ⟨next, found, skipped⟩ := exists_skipLine ⟨u, (p.next '-').next '-'⟩
  refine ⟨next, [.gap p], fun into => ?_, copies_gap rfl skipped⟩
  rw [copyNext]
  dsimp only
  rw [if_pos ⟨rfl, rfl⟩, skipLine_cons (by decide), skipLine_cons (by decide), found]
  rfl

theorem copiesNext_block (u : List Char) (p : Position) : CopiesNext '/' ('*' :: u) p := by
  obtain ⟨next, found, skipped⟩ := exists_skipBlock ⟨u, (p.next '/').next '*'⟩
  refine ⟨next, [.gap p], fun into => ?_, copies_gap rfl skipped⟩
  have noLine : ¬ ('/' = '-' ∧ ('*' :: u).head? = some '-') := fun h => absurd h.1 (by decide)
  rw [copyNext]
  dsimp only
  rw [if_neg noLine, if_pos ⟨rfl, rfl⟩, advance_cons, ok_bind, advance_cons, ok_bind, found]
  rfl

section Code

variable {c : Char} {t : List Char} {p : Position} (line : ¬ (c = '-' ∧ t.head? = some '-'))
  (block : ¬ (c = '/' ∧ t.head? = some '*'))

include line block

theorem copyNext_code (into : Buffer) :
    copyNext ⟨c :: t, p⟩ into
      = if isQuote c then copyQuoted c ⟨t, p.next c⟩ (into.push c p)
        else if isBlank c then .ok (⟨t, p.next c⟩, into.pushSpace p)
        else .ok (⟨t, p.next c⟩, into.push c p) := by
  rw [copyNext]
  dsimp only
  rw [if_neg line, if_neg block, advance_cons, ok_bind]
  rfl

theorem copiesNext_quote (hquote : isQuote c = true) : CopiesNext c t p := by
  obtain ⟨next, gs, copied, moves, quoted⟩ := exists_copyQuoted hquote ⟨t, p.next c⟩
  have all : ∀ g ∈ (⟨c, true, p⟩ : Glyph) :: gs, g.quoted = true :=
    List.forall_mem_cons.2 ⟨rfl, quoted⟩
  obtain ⟨runs, depth⟩ := depthAfter_quoted all
  have here := Source.glyphsFrom_code (p := p) line block
  rw [if_pos hquote] at here
  have noTurn : turn c = 0 := by
    rcases (by simpa [isQuote] using hquote : c = '\'' ∨ c = '"') with rfl | rfl <;> rfl
  refine ⟨next, ⟨c, true, p⟩ :: gs, fun into => ?_, ⟨?_, ?_, ?_⟩, ?_, runs, ?_⟩
  · rw [copyNext_code line block, if_pos hquote, copied]
    rfl
  · exact here.trans (congrArg (_ :: ·) moves.glyphs)
  · exact Nat.le_succ_of_le moves.length
  · exact moves.stop.trans (stop_cons c t p)
  · exact Nat.lt_succ_of_le moves.length
  · rw [depth, noTurn]

theorem copiesNext_blank (hquote : isQuote c = false) (hblank : isBlank c = true) :
    CopiesNext c t p := by
  have here := Source.glyphsFrom_code (p := p) line block
  rw [hquote, if_neg Bool.false_ne_true, if_pos hblank] at here
  have noTurn : turn c = 0 := by
    rw [turn, if_neg (Text.ne_of_isBlank hblank rfl), if_neg (Text.ne_of_isBlank hblank rfl)]
  refine ⟨_, _, fun into => ?_, copies_single here rfl noTurn.symm⟩
  rw [copyNext_code line block, hquote, if_neg Bool.false_ne_true, if_pos hblank]
  rfl

theorem copiesNext_char (hquote : isQuote c = false) (hblank : isBlank c = false) (hc : c ≠ ';') :
    CopiesNext c t p := by
  have here := Source.glyphsFrom_code (p := p) line block
  rw [hquote, hblank, if_neg Bool.false_ne_true, if_neg Bool.false_ne_true] at here
  have notSpace : c ≠ ' ' := by
    rintro rfl
    cases hblank
  refine ⟨_, _, fun into => ?_, copies_single here (by simp [Glyph.isCode, hc])
    (by simp [Glyph.turn, Glyph.isCode, turn])⟩
  rw [copyNext_code line block, hquote, hblank, if_neg Bool.false_ne_true,
    if_neg Bool.false_ne_true, Buffer.lay]
  simp [Glyph.isGap, notSpace]

end Code

/-- Copying never fails, and copies no semicolon in the open. -/
theorem copiesNext {c : Char} (hc : c ≠ ';') (t : List Char) (p : Position) :
    CopiesNext c t p := by
  by_cases line : c = '-' ∧ t.head? = some '-'
  · obtain ⟨rfl, dash⟩ := line
    obtain ⟨u, rfl⟩ := List.head?_eq_some_iff.1 dash
    exact copiesNext_line u p
  · by_cases block : c = '/' ∧ t.head? = some '*'
    · obtain ⟨rfl, star⟩ := block
      obtain ⟨u, rfl⟩ := List.head?_eq_some_iff.1 star
      exact copiesNext_block u p
    · cases hquote : isQuote c with
      | true => exact copiesNext_quote line block hquote
      | false =>
        cases hblank : isBlank c with
        | true => exact copiesNext_blank line block hquote hblank
        | false => exact copiesNext_char line block hquote hblank hc

/-- Whatever is next, at least one character of it is passed. -/
theorem lt_of_copyNext {sc : Scanner} {c : Char} {t : List Char} (h : sc.rest = c :: t)
    {into : Buffer} {copied : Scanner × Buffer} (found : copyNext sc into = .ok copied) :
    copied.1.rest.length < sc.rest.length := by
  obtain ⟨rest, p⟩ := sc
  subst h
  by_cases semicolon : c = ';'
  · subst semicolon
    rw [copyNext_code (fun h => absurd h.1 (by decide)) (fun h => absurd h.1 (by decide))] at found
    obtain rfl := Except.ok.inj found
    exact Nat.lt_succ_self _
  · obtain ⟨next, gs, copies, facts⟩ := copiesNext semicolon t p
    rw [copies into] at found
    obtain rfl := Except.ok.inj found
    exact facts.shorter

end Scanner

end StoredRoutine.Bytewise
