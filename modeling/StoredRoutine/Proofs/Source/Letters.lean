import StoredRoutine.Proofs.Source.Shifting
import StoredRoutine.Proofs.Text.Letters

/-!
# Sources in small letters

A source in small letters is cut where the source is cut: no character that cuts it is a letter, and
a letter takes as much room as its small form. The words that begin a declaration are recognized
whatever their letters, so the fragments are those of the source, at the same places, with their
texts in small letters (`scan_small`).
-/

namespace StoredRoutine.Source

open Text

/-! ## Places -/

@[simp] theorem Position.next_toLower (p : Position) (c : Char) : p.next c.toLower = p.next c := by
  simp only [Position.next, utf8Size_toLower, toLower_eq_iff (d := '\n') rfl]

@[simp] theorem byteLength_asciiLower (s : List Char) : byteLength (asciiLower s) = byteLength s := by
  induction s with
  | nil => rfl
  | cons c s ih => rw [asciiLower_cons, byteLength_cons, byteLength_cons, utf8Size_toLower, ih]

/-! ## Glyphs -/

/-- The glyph in small letters. -/
def Glyph.small (g : Glyph) : Glyph := { g with char := g.char.toLower }

theorem Glyph.isCode_small {c : Char} (hc : c.isAlpha = false) (g : Glyph) :
    g.small.isCode c = g.isCode c := by
  have hchar : (g.char.toLower == c) = (g.char == c) := by
    rw [Bool.eq_iff_iff, beq_iff_eq, beq_iff_eq, toLower_eq_iff hc]
  rw [isCode, isCode, small, hchar]

theorem isNeutral_small : IsNeutral Glyph.small where
  isGap := Glyph.isCode_small (c := ' ') rfl
  isCode := Glyph.isCode_small rfl
  turn g := by rw [Glyph.turn, Glyph.turn, Glyph.isCode_small rfl, Glyph.isCode_small rfl]

theorem text_map_small (gs : List Glyph) :
    Glyph.text (gs.map Glyph.small) = asciiLower (Glyph.text gs) := by
  simp [Glyph.text, Glyph.small, asciiLower, Function.comp_def]

/-- **The glyphs in small letters** are those of the text, where they are. -/
theorem glyphsFrom_asciiLower {around : Surround}
    (haround : ∀ quote, around = .quoted quote → isQuote quote = true) (p : Position)
    (s : List Char) :
    glyphsFrom around p (asciiLower s) = (glyphsFrom around p s).map Glyph.small := by
  have hcode : ∀ quote, Surround.code = .quoted quote → isQuote quote = true :=
    fun _ h => by cases h
  -- what opens or closes a comment in small letters does so in the text
  have hopens {d e : Char} (hd : d.isAlpha = false) (he : e.isAlpha = false) {c : Char}
      {rest : List Char} (h : ∀ others, c = d → rest = e :: others → False) :
      ∀ others, c.toLower = d → asciiLower rest = e :: others → False := by
    intro others hc hothers
    cases rest with
    | nil => cases hothers
    | cons first rest =>
      obtain ⟨hfirst, -⟩ := List.cons.inj hothers
      obtain rfl := (toLower_eq_iff he first).mp hfirst
      exact h rest ((toLower_eq_iff hd c).mp hc) rfl
  fun_induction glyphsFrom around p s with
  | case1 => rfl
  | case2 p rest ih =>
    have hlower : asciiLower ('-' :: '-' :: rest) = '-' :: '-' :: asciiLower rest := rfl
    rw [hlower, glyphsFrom, ih fun _ h => by cases h]
    rfl
  | case3 p rest ih =>
    have hlower : asciiLower ('/' :: '*' :: rest) = '/' :: '*' :: asciiLower rest := rfl
    rw [hlower, glyphsFrom, ih fun _ h => by cases h]
    rfl
  | case4 p c rest hdash hslash hquote ih =>
    have hrest : ∀ quote, Surround.quoted c = .quoted quote → isQuote quote = true := by
      rintro quote h
      cases h
      exact hquote
    rw [asciiLower_cons, glyphsFrom, isQuote_toLower, if_pos hquote, Position.next_toLower,
      toLower_of_isQuote hquote, ih hrest, List.map_cons, Glyph.small, toLower_of_isQuote hquote]
    · exact hopens rfl rfl hdash
    · exact hopens rfl rfl hslash
  | case5 p c rest hdash hslash hquote hblank ih =>
    rw [asciiLower_cons, glyphsFrom, isQuote_toLower, if_neg hquote, isBlank_toLower, if_pos hblank,
      Position.next_toLower, ih hcode]
    · rfl
    · exact hopens rfl rfl hdash
    · exact hopens rfl rfl hslash
  | case6 p c rest hdash hslash hquote hblank ih =>
    rw [asciiLower_cons, glyphsFrom, isQuote_toLower, if_neg hquote, isBlank_toLower, if_neg hblank,
      Position.next_toLower, ih hcode]
    · rfl
    · exact hopens rfl rfl hdash
    · exact hopens rfl rfl hslash
  | case7 quote p c rest ih =>
    have hquote := haround quote rfl
    have hrest : ∀ other, (if c = quote then Surround.code else .quoted quote) = .quoted other →
        isQuote other = true := by
      intro other h
      split_ifs at h
      cases h
      exact hquote
    rw [asciiLower_cons, glyphsFrom, Position.next_toLower]
    simp only [toLower_eq_iff (isAlpha_of_isQuote hquote), ih hrest]
    rfl
  | case8 p rest ih =>
    have hlower : asciiLower ('\n' :: rest) = '\n' :: asciiLower rest := rfl
    rw [hlower, glyphsFrom, if_pos rfl, ih hcode]
    rfl
  | case9 p c rest hc ih =>
    rw [asciiLower_cons, glyphsFrom, if_neg (mt (toLower_eq_iff rfl c).mp hc),
      Position.next_toLower, ih fun _ h => by cases h]
  | case10 p rest ih =>
    have hlower : asciiLower ('*' :: '/' :: rest) = '*' :: '/' :: asciiLower rest := rfl
    rw [hlower, glyphsFrom, ih hcode]
  | case11 p c rest hclose ih =>
    rw [asciiLower_cons, glyphsFrom, Position.next_toLower, ih fun _ h => by cases h]
    exact hopens rfl rfl hclose

/-! ## Statements -/

theorem stopAfter_small (gs : List Glyph) : stopAfter (gs.map Glyph.small) = stopAfter gs := by
  have hnext : ((fun g => (g.place.next g.char).offset) ∘ Glyph.small) =
      fun g => (g.place.next g.char).offset :=
    funext fun g => congrArg Position.offset (g.place.next_toLower g.char)
  rw [stopAfter, List.getLast?_map, Option.map_map, hnext, stopAfter]

/-- The statement in small letters. -/
def Statement.small (s : Statement) : Statement := s.mapGlyphs Glyph.small id

theorem statements_asciiLower (source : List Char) :
    statements (asciiLower source) = (statements source).map Statement.small := by
  have hglyphs : glyphs (asciiLower source) = (glyphs source).map Glyph.small :=
    glyphsFrom_asciiLower (fun _ h => by cases h) .start source
  have hstop : ∀ {gs : List Glyph}, gs ≠ [] → stopAfter (gs.map Glyph.small) = id (stopAfter gs) :=
    fun _ => stopAfter_small _
  rw [statements, byteLength_asciiLower, hglyphs]
  exact isNeutral_small.statementsOf_map hstop _ _

/-! ## Fragments -/

/-- The fragment with its text in small letters. -/
def Fragment.small (f : Fragment) : Fragment := { f with text := StoredRoutine.small f.text }

/-- The words that begin a declaration may be written in any letters. -/
theorem declarationStart?_asciiLower (words : List (Nat × List Char)) :
    declarationStart? (words.map fun (i, word) => (i, asciiLower word)) =
      declarationStart? words := by
  induction words with
  | nil => rfl
  | cons word rest ih =>
    obtain ⟨i, word⟩ := word
    have hnext : ((rest.map fun (i, word) => (i, asciiLower word)).head?.any
        fun next => sameLetters next.2 Kind.constant.keyword.toList) =
          rest.head?.any fun next => sameLetters next.2 Kind.constant.keyword.toList := by
      cases rest with
      | nil => rfl
      | cons next rest => exact sameLetters_asciiLower _ _
    simp only [List.map_cons, declarationStart?, sameLetters_asciiLower, hnext, ih]

theorem Statement.fragment?_small (s : Statement) :
    s.small.fragment? = s.fragment?.map Fragment.small := by
  have htext : s.small.text = asciiLower s.text := text_map_small s.glyphs
  simp only [fragment?, htext, words_asciiLower, declarationStart?_asciiLower]
  cases declarationStart? (words s.text) with
  | none => rfl
  | some found =>
    obtain ⟨i, kind⟩ := found
    have hglyph : s.small.glyphs[i]? = s.glyphs[i]?.map Glyph.small := List.getElem?_map
    simp only [Option.bind_eq_bind, Option.bind_some, hglyph, drop_asciiLower, trimEnd_asciiLower]
    cases s.glyphs[i]? with
    | none => rfl
    | some g =>
      exact congrArg (fun text => some (Fragment.mk kind text
        ⟨g.place.offset, s.stop, g.place.line, g.place.column⟩ s.terminated)) (small_ofList _).symm

/-- **The fragments of a source in small letters** are those of the source, where they are. -/
theorem scan_small (source : String) :
    scan (StoredRoutine.small source) = (scan source).map Fragment.small := by
  rw [scan, toList_small, statements_asciiLower, List.filterMap_map, scan, List.map_filterMap]
  exact congrArg (List.filterMap · _) (funext Statement.fragment?_small)

end StoredRoutine.Source
