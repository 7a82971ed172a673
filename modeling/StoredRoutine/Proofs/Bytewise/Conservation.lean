import StoredRoutine.Proofs.Bytewise.Safety
import StoredRoutine.Proofs.Source.Sections

/-!
# Nothing is lost between statements

A source is cut into statements by a loop that may have to go back: what was copied of a statement
whose parentheses are never closed is discarded, and its tail is read again. Still each character of
the code, which is what a source has outside of comments and blanks (`codeFrom`), comes to stand in
exactly one statement, in order and with its own place (`statements_conserve`).

The glyphs that are not gaps are the code (`solid_glyphsFrom`). Collapsing gaps leaves them as they
are, and they are told from the text and the places in a buffer by reading the text again
(`solidFrom_collapseFrom`), so what is said of the statements follows from their glyphs being a
partition of those of the source.
-/

namespace StoredRoutine.Source

open Text

/-! ## The code of a source -/

/-- The characters of a text with their places, where the first one stands at `p`. -/
def placed (p : Position) : List Char → List (Position × Char)
  | [] => []
  | c :: rest => (p, c) :: placed (p.next c) rest

/-- **The code of a source**: its characters outside of comments and its quoted sections, without
the blanks outside of them, each character with its place. A line comment ends in front of its line
break, which is a blank. -/
def codeFrom (p : Position) (s : List Char) : List (Position × Char) :=
  match s with
  | [] => []
  | '-' :: '-' :: rest =>
    codeFrom (p.after ('-' :: '-' :: rest.takeWhile (· ≠ '\n'))) (rest.dropWhile (· ≠ '\n'))
  | '/' :: '*' :: rest => codeFrom (p.after ('/' :: '*' :: insideComment rest)) (behindComment rest)
  | c :: rest =>
    if isQuote c then
      let behind := rest.take (quotedLength c rest)
      placed p (c :: behind) ++ codeFrom (p.after (c :: behind)) (rest.drop (quotedLength c rest))
    else if isBlank c then codeFrom (p.next c) rest
    else (p, c) :: codeFrom (p.next c) rest
termination_by s.length
decreasing_by
  · have := length_dropWhile_le (· ≠ '\n') rest
    simp only [List.length_cons]
    omega
  · have := length_behindComment_le rest
    simp only [List.length_cons]
    omega
  all_goals simp only [List.length_cons, List.length_drop]; omega

/-- What glyphs hold besides gaps. -/
def solid (gs : List Glyph) : List (Position × Char) :=
  (gs.filter fun g => !g.isGap).map fun g => (g.place, g.char)

theorem solid_append (gs hs : List Glyph) : solid (gs ++ hs) = solid gs ++ solid hs := by
  rw [solid, List.filter_append, List.map_append]
  rfl

theorem solid_gap (p : Position) (gs : List Glyph) : solid (.gap p :: gs) = solid gs := rfl

theorem solid_cons {g : Glyph} (hg : g.isGap = false) (gs : List Glyph) :
    solid (g :: gs) = (g.place, g.char) :: solid gs := by
  rw [solid, List.filter_cons_of_pos (by rw [hg]; rfl)]
  rfl

/-- A quoted section is kept as it is. -/
theorem solid_glyphsFrom_quoted {quote : Char} (hquote : isQuote quote = true) (p : Position)
    (s : List Char) :
    solid (glyphsFrom (.quoted quote) p s) =
      placed p (s.take (quotedLength quote s)) ++
        solid (glyphsFrom .code (p.after (s.take (quotedLength quote s)))
          (s.drop (quotedLength quote s))) := by
  have kept (c : Char) (p : Position) (gs : List Glyph) :
      solid (⟨c, true, p⟩ :: gs) = (p, c) :: solid gs := solid_cons rfl gs
  fun_induction quotedLength quote s generalizing p with
  | case1 => rfl
  | case2 c =>
    rw [glyphsFrom, kept]
    split_ifs <;> rfl
  | case3 c d rest hc ih =>
    rw [glyphsFrom, if_neg hc, kept, ih, Nat.add_comm 1, List.take_succ_cons, List.drop_succ_cons,
      placed, Position.after_cons, List.cons_append]
  | case4 c rest hc ih =>
    obtain rfl := Decidable.of_not_not hc
    rw [glyphsFrom_closing, glyphsFrom_quote hquote, kept, kept, ih, Nat.add_comm 2,
      List.take_succ_cons, List.take_succ_cons, List.drop_succ_cons, List.drop_succ_cons, placed,
      placed, Position.after_cons, Position.after_cons, List.cons_append, List.cons_append]
  | case5 c d rest hc hd =>
    obtain rfl := Decidable.of_not_not hc
    rw [glyphsFrom_closing, kept]
    rfl

/-- **The glyphs besides gaps are the code of the source.** -/
theorem solid_glyphsFrom (p : Position) (s : List Char) :
    solid (glyphsFrom .code p s) = codeFrom p s := by
  fun_induction codeFrom p s with
  | case1 => rfl
  | case2 p rest ih =>
    rw [glyphsFrom, solid_gap, glyphsFrom_lineComment_eq]
    exact ih
  | case3 p rest ih =>
    rw [glyphsFrom, solid_gap, glyphsFrom_blockComment_eq]
    exact ih
  | case4 p c rest hdash hslash hquote behind ih =>
    rw [glyphsFrom_quote hquote, solid_cons rfl, solid_glyphsFrom_quoted hquote, ← ih]
    rfl
  | case5 p c rest hdash hslash hquote hblank ih =>
    rw [glyphsFrom_blank hblank, solid_gap, ih]
  | case6 p c rest hdash hslash hquote hblank ih =>
    have kept : Glyph.isGap ⟨c, false, p⟩ = false := by
      refine eq_false_of_ne_true fun hgap => hblank ?_
      obtain rfl : c = ' ' := by simpa [Glyph.isGap] using hgap
      rfl
    rw [glyphsFrom, if_neg hquote, if_neg hblank, solid_cons kept, ih]
    · exact hdash
    · exact hslash

/-! ## The code of a text -/

/-- The text without the spaces outside of quotes. -/
def withoutSpaces (n : Nesting) : List Char → List Char
  | [] => []
  | c :: rest =>
    if c = ' ' ∧ n.quote = none then withoutSpaces (n.step c) rest
    else c :: withoutSpaces (n.step c) rest

/-- The text without the spaces outside of quotes, each character with the place that is listed
for its first byte, if there is one. -/
def solidFrom (n : Nesting) : List Char → List Position → List (Position × Char)
  | [], _ => []
  | c :: rest, places =>
    let others := solidFrom (n.step c) rest (places.drop c.utf8Size)
    if c = ' ' ∧ n.quote = none then others
    else match places.head? with
      | some p => (p, c) :: others
      | none => others

theorem withoutSpaces_append (n : Nesting) (s t : List Char) :
    withoutSpaces n (s ++ t) = withoutSpaces n s ++ withoutSpaces (n.after s) t := by
  induction s generalizing n with
  | nil => rfl
  | cons c s ih =>
    rw [List.cons_append, withoutSpaces, withoutSpaces, ih, Nesting.after_cons]
    split_ifs <;> rfl

/-- Only the quotes matter. -/
theorem withoutSpaces_congr {n m : Nesting} (h : m.quote = n.quote) (s : List Char) :
    withoutSpaces m s = withoutSpaces n s := by
  induction s generalizing n m with
  | nil => rfl
  | cons c s ih =>
    have next : (m.step c).quote = (n.step c).quote := by
      cases hn : n.quote with
      | none => rw [Nesting.quote_step_of_none hn, Nesting.quote_step_of_none (h.trans hn)]
      | some quote => rw [Nesting.quote_step_of_some hn, Nesting.quote_step_of_some (h.trans hn)]
    rw [withoutSpaces, withoutSpaces, h, ih next]

/-- Where every byte has its place, all characters are told. -/
theorem map_snd_solidFrom (n : Nesting) {s : List Char} {places : List Position}
    (h : places.length = byteLength s) :
    (solidFrom n s places).map Prod.snd = withoutSpaces n s := by
  induction s generalizing n places with
  | nil => rfl
  | cons c s ih =>
    rw [byteLength_cons] at h
    have size := c.utf8Size_pos
    have left : (places.drop c.utf8Size).length = byteLength s := by
      rw [List.length_drop, h]
      omega
    have others := ih (n.step c) left
    cases places with
    | nil =>
      rw [List.length_nil] at h
      omega
    | cons p places =>
      rw [solidFrom, withoutSpaces, ← others]
      split_ifs <;> rfl

/-- A gap is a space outside of quotes. -/
theorem Legible.isGap_iff {n : Nesting} {g : Glyph} {gs : List Glyph} (h : Legible n (g :: gs)) :
    g.isGap = true ↔ g.char = ' ' ∧ n.quote = none := by
  constructor
  · intro hg
    exact ⟨(h.gap hg).1, (h.gap hg).2.2⟩
  · rintro ⟨space, hn⟩
    have mark := h.1
    rw [isNone_depthAt?, hn, space] at mark
    rw [Glyph.isGap, mark, space]
    rfl

/-- **Reading the text again tells the gaps**, also when they are collapsed. -/
theorem solidFrom_collapseFrom {n : Nesting} {gs : List Glyph} (h : Legible n gs)
    (afterGap : Bool) :
    solidFrom n (Glyph.text (collapseFrom afterGap gs))
        (Bytewise.Buffer.ofGlyphs (collapseFrom afterGap gs)).positions = solid gs := by
  induction gs generalizing n afterGap with
  | nil => rfl
  | cons g gs ih =>
    have split (hs : List Glyph) : (Bytewise.Buffer.ofGlyphs (g :: hs)).positions
        = List.replicate g.char.utf8Size g.place ++ (Bytewise.Buffer.ofGlyphs hs).positions := rfl
    obtain ⟨k, hk⟩ := Nat.exists_eq_succ_of_ne_zero (Nat.ne_of_gt g.char.utf8Size_pos)
    have first (hs : List Glyph) :
        (Bytewise.Buffer.ofGlyphs (g :: hs)).positions.head? = some g.place := by
      rw [split, hk]
      rfl
    have behind (hs : List Glyph) :
        (Bytewise.Buffer.ofGlyphs (g :: hs)).positions.drop g.char.utf8Size
          = (Bytewise.Buffer.ofGlyphs hs).positions := by
      rw [split, List.drop_left' List.length_replicate]
    rw [collapseFrom]
    by_cases gap : g.isGap = true
    · obtain ⟨space, same, outside⟩ := h.gap gap
      have tail : Legible n gs := by
        rw [← same]
        exact h.2.2
      have left : solid (g :: gs) = solid gs := by
        rw [solid, List.filter_cons_of_neg (by simp [gap])]
        rfl
      rw [gap, Bool.true_and, left]
      split_ifs
      · exact ih tail afterGap
      · rw [Glyph.text_cons, solidFrom, behind, if_pos ⟨space, outside⟩, same]
        exact ih tail true
    · rw [eq_false_of_ne_true gap, Bool.false_and, if_neg Bool.false_ne_true, Glyph.text_cons,
        solidFrom, behind, if_neg (mt h.isGap_iff.2 gap), first, ih h.2.2,
        solid_cons (eq_false_of_ne_true gap)]

/-! ## The statements of a source -/

/-- **The code is shared out** among the statements, in order. -/
theorem flatMap_solidFrom_statementsOf {size : Nat} {gs : List Glyph} (h : Legible .start gs) :
    ((statementsOf size gs).flatMap fun s =>
        solidFrom .start s.text (Bytewise.Buffer.ofGlyphs s.glyphs).positions) = solid gs := by
  fun_induction statementsOf size gs with
  | case1 gs first others hfirst ih =>
    obtain ⟨-, hothers⟩ := terminated_of_firstStatement? h hfirst
    obtain ⟨rfl, -⟩ := firstStatement?_eq_some hfirst
    rw [List.flatMap_cons, ih hothers, solid_append]
    exact congrArg (· ++ solid others) (solidFrom_collapseFrom h.left true)
  | case2 gs hnone hlast =>
    rw [List.flatMap_nil, ← solidFrom_collapseFrom h true]
    exact congrArg (fun hs => solidFrom .start (Glyph.text hs) _) hlast.symm
  | case3 gs hnone hlast =>
    rw [List.flatMap_singleton]
    exact solidFrom_collapseFrom h true

/-- No quote is open behind a statement, so spaces can be deleted in each statement by itself. -/
theorem withoutSpaces_flatMap_statementsOf {size : Nat} {gs : List Glyph}
    (h : Legible .start gs) :
    withoutSpaces .start ((statementsOf size gs).flatMap Statement.text) =
      (statementsOf size gs).flatMap fun s => withoutSpaces .start s.text := by
  fun_induction statementsOf size gs with
  | case1 gs first others hfirst ih =>
    obtain ⟨⟨s, text, terminated⟩, hothers⟩ := terminated_of_firstStatement? h hfirst
    have closed : (Nesting.start.after (Glyph.text (collapse first))).quote = none := by
      rw [text, Nesting.after_append, Nesting.after_cons, Nesting.after_nil,
        Nesting.quote_step_of_none terminated.quote]
      rfl
    rw [List.flatMap_cons, List.flatMap_cons, withoutSpaces_append, ← ih hothers]
    exact congrArg (_ ++ ·) (withoutSpaces_congr closed _)
  | case2 gs hnone hlast => rfl
  | case3 gs hnone hlast =>
    rw [List.flatMap_singleton, List.flatMap_singleton]

/-- What a statement has besides gaps, the source has as well. -/
theorem mem_of_mem_statementsOf {size : Nat} {gs : List Glyph} :
    ∀ s ∈ statementsOf size gs, ∀ g ∈ s.glyphs, g.isGap = false → g ∈ gs := by
  have own {gs : List Glyph} {g : Glyph} (hmem : g ∈ collapse gs) (hg : g.isGap = false) :
      g ∈ gs := by
    obtain ⟨front, back, split⟩ := List.append_of_mem hmem
    obtain ⟨pre, post, rfl, -⟩ := exists_of_collapseFrom_eq hg split
    exact List.mem_append_right pre List.mem_cons_self
  fun_induction statementsOf size gs with
  | case1 gs first others hfirst ih =>
    intro s hs g hmem hg
    rw [(firstStatement?_eq_some hfirst).1]
    rcases List.mem_cons.1 hs with rfl | hs
    · exact List.mem_append_left _ (own hmem hg)
    · exact List.mem_append_right _ (ih s hs g hmem hg)
  | case2 gs hnone hlast =>
    intro s hs
    cases hs
  | case3 gs hnone hlast =>
    intro s hs g hmem hg
    obtain rfl := List.mem_singleton.1 hs
    exact own hmem hg

end StoredRoutine.Source

namespace StoredRoutine.Bytewise

open Source (byteLength Position Glyph Statement placed codeFrom solidFrom withoutSpaces)
open Text (Nesting)

/-- Every byte of a character has the place of the character. -/
theorem getElem?_positions (front : List Glyph) (g : Glyph) (back : List Glyph) {i : Nat}
    (hi : i < g.char.utf8Size) :
    (Buffer.ofGlyphs (front ++ g :: back)).positions[byteLength (Glyph.text front) + i]?
      = some g.place := by
  have split : (Buffer.ofGlyphs (front ++ g :: back)).positions
      = (Buffer.ofGlyphs front).positions ++ (List.replicate g.char.utf8Size g.place
        ++ (Buffer.ofGlyphs back).positions) := by
    simp [Buffer.ofGlyphs]
  rw [split, ← length_positions, List.getElem?_append_right (Nat.le_add_right _ _),
    Nat.add_sub_cancel_left, List.getElem?_append_left (by rwa [List.length_replicate]),
    List.getElem?_replicate_of_lt hi]

/-- **The places of a statement** that is cut off from the source. -/
structure Cut.IsPlaced (source : List Char) (cut : Cut) : Prop where
  /-- Each byte of the text has a place. -/
  length : cut.buffer.positions.length = byteLength cut.buffer.text
  /-- Each character but the spaces stands in the source where its bytes are said to stand. -/
  places : ∀ a c b, cut.buffer.text = a ++ c :: b → c ≠ ' ' → ∃ before behind,
    source = before ++ c :: behind ∧ (Position.start.after before).offset = byteLength before ∧
      ∀ i < c.utf8Size,
        cut.buffer.positions[byteLength a + i]? = some (Position.start.after before)

theorem isPlaced_of_mem {source : List Char} {s : Statement} (hs : s ∈ Source.statements source) :
    (Cut.of s).IsPlaced source where
  length := length_positions s.glyphs
  places a c b split space := by
    obtain ⟨front, rest, glyphs, rfl, tail⟩ := List.map_eq_append_iff.1 split
    obtain ⟨g, back, rfl, rfl, -⟩ := List.map_eq_cons_iff.1 tail
    have noGap : g.isGap = false := by simp [Glyph.isGap, space]
    have mem : g ∈ s.glyphs := by
      rw [glyphs]
      exact List.mem_append_right front List.mem_cons_self
    obtain ⟨gs, hs', read⟩ :=
      List.append_of_mem (Source.mem_of_mem_statementsOf s hs g mem noGap)
    obtain ⟨before, behind, rfl, place, -⟩ :=
      Source.readsAt_of_glyphsFrom_eq (n := .start) rfl read noGap
    refine ⟨before, behind, rfl, ?_, fun i hi => ?_⟩
    · rw [Position.offset_after]
      exact Nat.zero_add _
    · have found := getElem?_positions front g back hi
      rwa [← glyphs, place] at found

/-- **No text is lost or doubled between statements.** For every source, the statements that are cut
off have all of its code and nothing else: their texts one behind the other are, without the spaces
outside of quotes, the source without its comments and its blanks outside of quotes; each character
of the code is found in exactly one statement, in order and with its own place; and each byte of a
statement has a place, which is that of the character that it belongs to. -/
theorem statements_conserve (source : List Char) :
    ∃ cuts, statements source = .ok cuts ∧
      withoutSpaces .start (cuts.flatMap fun cut => cut.buffer.text)
        = (codeFrom .start source).map Prod.snd ∧
      (cuts.flatMap fun cut => solidFrom .start cut.buffer.text cut.buffer.positions)
        = codeFrom .start source ∧
      ∀ cut ∈ cuts, cut.IsPlaced source := by
  have legible := Source.legible_glyphsFrom .code .start source .start rfl
  have shared : ((Source.statements source).flatMap fun s =>
      solidFrom .start s.text (Buffer.ofGlyphs s.glyphs).positions) = codeFrom .start source := by
    rw [← Source.solid_glyphsFrom]
    exact Source.flatMap_solidFrom_statementsOf legible
  refine ⟨_, statements_eq source, ?_, ?_, ?_⟩
  · rw [← shared, List.flatMap_map, List.map_flatMap]
    refine (Source.withoutSpaces_flatMap_statementsOf legible).trans ?_
    congr 1
    funext s
    exact (Source.map_snd_solidFrom .start (length_positions s.glyphs)).symm
  · rw [List.flatMap_map]
    exact shared
  · intro cut hcut
    obtain ⟨s, hs, rfl⟩ := List.mem_map.1 hcut
    exact isPlaced_of_mem hs

end StoredRoutine.Bytewise
