import StoredRoutine.Proofs.Source.Places
import StoredRoutine.Proofs.Text.Sections

/-!
# The quoted sections of a source

In a source, quotes in comments open nothing. `quotedSections` reads the closed sections off the
characters of the source, passing comments over, and `quotedSections_eq` says that the glyphs of the
source are a text with the same sections. Collapsing gaps keeps them as well
(`textSections_collapse`), so what is cut out of the glyphs has the sections of the source at that
place.
-/

namespace StoredRoutine.Source

open Text

/-! ## Reading past comments -/

/-- What follows the first `*/`. -/
def behindComment : List Char → List Char
  | [] => []
  | '*' :: '/' :: rest => rest
  | _ :: rest => behindComment rest

theorem length_behindComment_le (s : List Char) : (behindComment s).length ≤ s.length := by
  fun_induction behindComment s with
  | case1 => exact Nat.le_refl 0
  | case2 rest => exact Nat.le_add_right _ 2
  | case3 c rest _ ih => exact Nat.le_succ_of_le ih

/-- **The closed quoted sections of a source**, in order, each with its quotes. A line comment goes
on to the end of its line, and a block comment that is not closed to the end of the source. -/
def quotedSections (s : List Char) : List (List Char) :=
  match s with
  | [] => []
  | '-' :: '-' :: rest => quotedSections (rest.dropWhile (· ≠ '\n'))
  | '/' :: '*' :: rest => quotedSections (behindComment rest)
  | c :: rest =>
    if isQuote c then
      match _h : closeQuote? c rest with
      | none => []
      | some (inside, behind) => (c :: inside) :: quotedSections behind
    else quotedSections rest
termination_by s.length
decreasing_by
  · have := length_dropWhile_le (· ≠ '\n') rest
    simp only [List.length_cons]
    omega
  · have := length_behindComment_le rest
    simp only [List.length_cons]
    omega
  · exact Nat.lt_succ_of_lt (length_of_closeQuote? ‹_› _h)
  · exact Nat.lt_succ_self _

/-- The rest of a block comment, with the `*/` that ends it. -/
def insideComment : List Char → List Char
  | [] => []
  | '*' :: '/' :: _ => ['*', '/']
  | c :: rest => c :: insideComment rest

/-- A line comment leaves behind what its line break does. -/
theorem glyphsFrom_lineComment_eq (p : Position) (s : List Char) :
    glyphsFrom .lineComment p s =
      glyphsFrom .code (p.after (s.takeWhile (· ≠ '\n'))) (s.dropWhile (· ≠ '\n')) := by
  induction s generalizing p with
  | nil => rfl
  | cons c s ih =>
    by_cases hc : c = '\n'
    · subst hc
      rfl
    · rw [glyphsFrom, if_neg hc, ih, List.takeWhile_cons, if_pos (by simpa using hc),
        List.dropWhile_cons, if_pos (by simpa using hc), Position.after_cons]

/-- A block comment leaves nothing behind but its gap. -/
theorem glyphsFrom_blockComment_eq (p : Position) (s : List Char) :
    glyphsFrom .blockComment p s =
      glyphsFrom .code (p.after (insideComment s)) (behindComment s) := by
  fun_induction behindComment s generalizing p with
  | case1 => rfl
  | case2 rest => rw [glyphsFrom]; rfl
  | case3 c rest hclose ih =>
    rw [glyphsFrom, ih, insideComment, Position.after_cons]
    · exact hclose
    · exact hclose

theorem glyphsFrom_closing (quote : Char) (p : Position) (s : List Char) :
    glyphsFrom (.quoted quote) p (quote :: s) =
      ⟨quote, true, p⟩ :: glyphsFrom .code (p.next quote) s := by
  rw [glyphsFrom, if_pos rfl]

section Quote

variable {quote : Char} (hquote : isQuote quote = true)

include hquote

theorem glyphsFrom_quote (p : Position) (s : List Char) :
    glyphsFrom .code p (quote :: s) =
      ⟨quote, true, p⟩ :: glyphsFrom (.quoted quote) (p.next quote) s := by
  have hne : ∀ c, isQuote c = false → quote ≠ c := by
    rintro c hc rfl
    rw [hquote] at hc
    cases hc
  rw [glyphsFrom_code (fun h => hne '-' rfl h.1) (fun h => hne '/' rfl h.1), if_pos hquote]

/-- What a section holds is kept as it is. -/
theorem exists_text_glyphsFrom_quoted {s inside behind : List Char}
    (h : closeQuote? quote s = some (inside, behind)) (p : Position) :
    ∃ q, Glyph.text (glyphsFrom (.quoted quote) p s) =
      inside ++ Glyph.text (glyphsFrom .code q behind) := by
  fun_induction closeQuote? quote s generalizing p inside with
  | case1 => cases h
  | case2 =>
    cases h
    exact ⟨p.next quote, congrArg Glyph.text (glyphsFrom_closing quote p [])⟩
  | case3 => cases h
  | case4 rest ih =>
    obtain ⟨⟨inside', behind'⟩, hrest, heq⟩ := Option.map_eq_some_iff.mp h
    cases heq
    obtain ⟨q, hq⟩ := ih hrest ((p.next quote).next quote)
    refine ⟨q, ?_⟩
    rw [glyphsFrom_closing, glyphsFrom_quote hquote, Glyph.text_cons, Glyph.text_cons, hq]
    rfl
  | case5 d rest hd =>
    cases h
    exact ⟨p.next quote, congrArg Glyph.text (glyphsFrom_closing quote p (d :: rest))⟩
  | case6 c d rest hc ih =>
    obtain ⟨⟨inside', behind'⟩, hrest, heq⟩ := Option.map_eq_some_iff.mp h
    cases heq
    obtain ⟨q, hq⟩ := ih hrest (p.next c)
    refine ⟨q, ?_⟩
    rw [glyphsFrom, if_neg hc, Glyph.text_cons, hq]
    rfl

/-- A section that is never closed is kept as it is, up to the end. -/
theorem text_glyphsFrom_quoted {s : List Char} (h : closeQuote? quote s = none) (p : Position) :
    Glyph.text (glyphsFrom (.quoted quote) p s) = s := by
  fun_induction closeQuote? quote s generalizing p with
  | case1 => rfl
  | case2 => cases h
  | case3 c hc => rw [glyphsFrom, if_neg hc]; rfl
  | case4 rest ih =>
    rw [glyphsFrom_closing, glyphsFrom_quote hquote, Glyph.text_cons, Glyph.text_cons,
      ih (Option.map_eq_none_iff.mp h)]
  | case5 => cases h
  | case6 c d rest hc ih =>
    rw [glyphsFrom, if_neg hc, Glyph.text_cons, ih (Option.map_eq_none_iff.mp h)]

end Quote

/-- **The sections of a source are those of its glyphs.** -/
theorem quotedSections_eq (p : Position) (s : List Char) :
    quotedSections s = textSections (Glyph.text (glyphsFrom .code p s)) := by
  have hgap : ∀ (p : Position) (gs : List Glyph),
      textSections (Glyph.text (.gap p :: gs)) = textSections (Glyph.text gs) :=
    fun p gs => textSections_cons rfl _
  fun_induction quotedSections s generalizing p with
  | case1 => exact textSections_nil.symm
  | case2 rest ih =>
    rw [glyphsFrom, hgap, glyphsFrom_lineComment_eq, ih]
  | case3 rest ih =>
    rw [glyphsFrom, hgap, glyphsFrom_blockComment_eq, ih]
  | case4 c rest hdash hslash hquote hnone =>
    rw [glyphsFrom_quote hquote, Glyph.text_cons, text_glyphsFrom_quoted hquote hnone,
      textSections_unclosed hquote hnone]
  | case5 c rest hdash hslash hquote inside behind hsome ih =>
    obtain ⟨q, hq⟩ := exists_text_glyphsFrom_quoted hquote hsome (p.next c)
    obtain ⟨-, hbehind, hcloses⟩ := of_closeQuote?_eq_some hquote hsome
    -- the quote is not doubled by what is left of the source without its comments
    have hnext : (Glyph.text (glyphsFrom .code q behind)).head? ≠ some c := by
      intro hhead
      refine hbehind (head?_text_glyphsFrom_code hhead ?_)
      rintro rfl
      cases hquote
    rw [glyphsFrom_quote hquote, Glyph.text_cons, hq, textSections_quoted hquote hcloses hnext,
      ih q]
  | case6 c rest hdash hslash hquote ih =>
    have hdash' : ¬ (c = '-' ∧ rest.head? = some '-') := by
      rintro ⟨rfl, hnext⟩
      obtain ⟨others, rfl⟩ := List.head?_eq_some_iff.mp hnext
      exact hdash others rfl rfl
    have hslash' : ¬ (c = '/' ∧ rest.head? = some '*') := by
      rintro ⟨rfl, hnext⟩
      obtain ⟨others, rfl⟩ := List.head?_eq_some_iff.mp hnext
      exact hslash others rfl rfl
    rw [glyphsFrom_code hdash' hslash', if_neg hquote]
    split_ifs with hblank
    · rw [hgap, ih (p.next c)]
    · rw [Glyph.text_cons, textSections_cons (eq_false_of_ne_true hquote), ih (p.next c)]

/-! ## Collapsing gaps -/

/-- Gaps that are left out stand behind a gap, or in front of everything. -/
theorem textSections_append_collapseFrom (front : List Char) {gs : List Glyph}
    (h : Legible (Nesting.start.after front) gs) (afterGap : Bool)
    (hgap : afterGap = true → ∀ c, front.getLast? = some c → c = ' ') :
    textSections (front ++ Glyph.text (collapseFrom afterGap gs)) =
      textSections (front ++ Glyph.text gs) := by
  induction gs generalizing front afterGap with
  | nil => rfl
  | cons g rest ih =>
    rw [collapseFrom]
    split_ifs with hdrop
    · rw [Bool.and_eq_true] at hdrop
      obtain ⟨hspace, hstep, hquote⟩ := h.gap hdrop.1
      have hrest := h.2.2
      rw [hstep] at hrest
      -- no section ends where the gap is
      have happend : ∀ t, textSections (front ++ t) = textSections front ++ textSections t := by
        have hstart : Nesting.start.quote = none := rfl
        refine fun t => textSections_append hstart hquote fun quote hlast _ => ?_
        rw [hgap hdrop.2 quote hlast]
        rfl
      rw [ih front hrest afterGap hgap, Glyph.text_cons, hspace, happend, happend,
        textSections_cons rfl]
    · have hfront : ∀ gs, front ++ Glyph.text (g :: gs) = front ++ [g.char] ++ Glyph.text gs :=
        fun gs => List.append_cons front g.char _
      have hrest : Legible (Nesting.start.after (front ++ [g.char])) rest := by
        rw [Nesting.after_append]
        exact h.2.2
      rw [hfront, hfront]
      refine ih (front ++ [g.char]) hrest g.isGap fun hg c hlast => ?_
      rw [List.getLast?_concat] at hlast
      rw [← Option.some.inj hlast]
      exact (h.gap hg).1

/-- **Collapsing gaps keeps the sections.** -/
theorem textSections_collapse {gs : List Glyph} (h : Legible .start gs) :
    textSections (Glyph.text (collapse gs)) = textSections (Glyph.text gs) :=
  textSections_append_collapseFrom [] h true fun _ _ hlast => by cases hlast

/-! ## Sources one behind the other -/

/-- **The sections of a source that is read in two.** -/
theorem ReadsInTwo.quotedSections_append {p : Position} {a b : List Char} (h : ReadsInTwo p a b) :
    quotedSections (a ++ b) = quotedSections a ++ quotedSections b := by
  have hstart : Nesting.start.quote = none := rfl
  rw [quotedSections_eq p (a ++ b), quotedSections_eq p a, quotedSections_eq (p.after a) b,
    h.glyphs, Glyph.text_append]
  refine textSections_append hstart h.quote fun quote hlast hhead => ?_
  by_cases hspace : quote = ' '
  · rw [hspace]
    rfl
  · exact h.apart quote hlast (head?_text_glyphsFrom_code hhead hspace)

end StoredRoutine.Source
