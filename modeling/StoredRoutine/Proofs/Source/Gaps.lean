import StoredRoutine.Source.Statement
import StoredRoutine.Proofs.Text.OneLine

/-!
# The glyphs of a text

A text on one line is read into its own characters (`glyphsFrom_append`), and what stands between
two texts, blanks and comments in any order, into gaps (`Gap.glyphsFrom_append`).
-/

namespace StoredRoutine.Source

open Text

/-! ## Texts on one line -/

/-- What surrounds a place outside comments. -/
def surround (n : Nesting) : Surround :=
  match n.quote with
  | none => .code
  | some quote => .quoted quote

/-- The characters of a text as glyphs. -/
def ofText (n : Nesting) (p : Position) : List Char → List Glyph
  | [] => []
  | c :: rest => ⟨c, (n.depthAt? c).isNone, p⟩ :: ofText (n.step c) (p.next c) rest

theorem text_ofText (n : Nesting) (p : Position) (s : List Char) :
    Glyph.text (ofText n p s) = s := by
  induction s generalizing n p with
  | nil => rfl
  | cons c s ih => exact congrArg (c :: ·) (ih _ _)

theorem ofText_append (n : Nesting) (p : Position) (s t : List Char) :
    ofText n p (s ++ t) = ofText n p s ++ ofText (n.after s) (p.after s) t := by
  induction s generalizing n p with
  | nil => rfl
  | cons c s ih => exact congrArg (_ :: ·) (ih _ _)

/-- A character that does not begin a comment. -/
theorem glyphsFrom_code {p : Position} {c : Char} {rest : List Char}
    (hdash : ¬ (c = '-' ∧ rest.head? = some '-')) (hslash : ¬ (c = '/' ∧ rest.head? = some '*')) :
    glyphsFrom .code p (c :: rest) =
      if isQuote c then ⟨c, true, p⟩ :: glyphsFrom (.quoted c) (p.next c) rest
      else if isBlank c then .gap p :: glyphsFrom .code (p.next c) rest
      else ⟨c, false, p⟩ :: glyphsFrom .code (p.next c) rest := by
  rw [glyphsFrom]
  · rintro others rfl rfl
    exact hdash ⟨rfl, rfl⟩
  · rintro others rfl rfl
    exact hslash ⟨rfl, rfl⟩

/-- One character of a text in normal form. -/
theorem glyphsFrom_cons {n : Nesting} {c : Char} {rest : List Char}
    (hc : ∀ d ∈ n.depthAt? c, isTidyAt c rest = true) (p : Position) :
    glyphsFrom (surround n) p (c :: rest) =
      ⟨c, (n.depthAt? c).isNone, p⟩ :: glyphsFrom (surround (n.step c)) (p.next c) rest := by
  cases hquote : n.quote with
  | some quote =>
    have hsurround : surround n = .quoted quote := by rw [surround, hquote]
    have hnext : surround (n.step c) = if c = quote then .code else .quoted quote := by
      rw [surround, Nesting.quote_step_of_some hquote]
      split_ifs <;> rfl
    have hmark : n.depthAt? c = none := by simp [Nesting.depthAt?, hquote]
    rw [hsurround, hnext, hmark, glyphsFrom]
    rfl
  | none =>
    have hsurround : surround n = .code := by rw [surround, hquote]
    have hnext : surround (n.step c) = if isQuote c then .quoted c else .code := by
      rw [surround, Nesting.quote_step_of_none hquote]
      split_ifs <;> rfl
    rw [hsurround, hnext]
    by_cases hopens : isQuote c = true
    · -- the quote that opens a section belongs to it
      have hmark : n.depthAt? c = none := by simp [Nesting.depthAt?, hopens]
      have hdash : c ≠ '-' := by
        rintro rfl
        cases hopens
      have hslash : c ≠ '/' := by
        rintro rfl
        cases hopens
      rw [glyphsFrom_code (fun h => hdash h.1) (fun h => hslash h.1), if_pos hopens, if_pos hopens,
        hmark]
      rfl
    · have hmark : (n.depthAt? c).isNone = false := by
        rw [Nesting.depthAt?, hquote]
        simp only [hopens, Option.isSome_none, Bool.or_self, Bool.false_eq_true, if_false]
        split_ifs <;> rfl
      obtain ⟨d, hd⟩ := Option.isSome_iff_exists.mp (Option.isNone_eq_false_iff.mp hmark)
      have htidy := hc d hd
      obtain ⟨hdash, hslash⟩ := not_comment_of_isTidyAt htidy
      rw [hmark, if_neg hopens, glyphsFrom_code hdash hslash, if_neg hopens]
      by_cases hblank : isBlank c = true
      · obtain ⟨rfl, -⟩ := eq_space_of_isTidyAt htidy hblank
        rw [if_pos hblank]
        rfl
      · rw [if_neg hblank]

/-- **A text in normal form is read as it stands**, as long as what follows it does not end the
opening of a comment. -/
theorem glyphsFrom_append {n : Nesting} {s t : List Char}
    (h : everyOpen (fun _ => isTidyAt) n s = true) (ht : BeginsSafely t) (p : Position) :
    glyphsFrom (surround n) p (s ++ t) =
      ofText n p s ++ glyphsFrom (surround (n.after s)) (p.after s) t := by
  induction s generalizing n p with
  | nil => rfl
  | cons c s ih =>
    obtain ⟨hc, hs⟩ := of_everyOpen_cons h
    have htidy : ∀ d ∈ n.depthAt? c, isTidyAt c (s ++ t) = true := by
      intro d hd
      rw [Option.all_eq_true] at hc
      exact isTidyAt_append (hc d hd) ht
    rw [List.cons_append, glyphsFrom_cons htidy, ih hs]
    rfl

theorem glyphsFrom_code_append {s t : List Char} (h : IsOneLine s) (ht : BeginsSafely t)
    (p : Position) :
    glyphsFrom .code p (s ++ t) = ofText .start p s ++ glyphsFrom .code (p.after s) t := by
  have hglyphs := glyphsFrom_append h.tidy ht p
  rw [h.closed] at hglyphs
  exact hglyphs

/-! ## Fillers -/

/-- A blank or a comment that is closed. -/
inductive Filler where
  | blank (c : Char) (h : isBlank c = true)
  | lineComment (text : List Char) (h : '\n' ∉ text)
  | blockComment (text : List Char) (h : ¬ ['*', '/'] <:+: text)

/-- The filler as it is written. -/
def Filler.text : Filler → List Char
  | blank c _ => [c]
  | lineComment text _ => '-' :: '-' :: text ++ ['\n']
  | blockComment text _ => '/' :: '*' :: text ++ ['*', '/']

/-- A blank is none of the characters that mean something to the reader. -/
theorem glyphsFrom_blank {c : Char} (h : isBlank c = true) (p : Position) (t : List Char) :
    glyphsFrom .code p (c :: t) = .gap p :: glyphsFrom .code (p.next c) t := by
  have hdash : c ≠ '-' := ne_of_isBlank h (by decide)
  have hslash : c ≠ '/' := ne_of_isBlank h (by decide)
  have hquote : ¬ isQuote c = true := by simp [isQuote_of_isBlank h]
  rw [glyphsFrom_code (fun hc => hdash hc.1) (fun hc => hslash hc.1), if_neg hquote, if_pos h]

theorem glyphsFrom_lineComment {s : List Char} (h : '\n' ∉ s) (p : Position) (t : List Char) :
    glyphsFrom .lineComment p (s ++ '\n' :: t) =
      .gap (p.after s) :: glyphsFrom .code ((p.after s).next '\n') t := by
  induction s generalizing p with
  | nil => rfl
  | cons c s ih =>
    obtain ⟨hne, hs⟩ := List.ne_and_not_mem_of_not_mem_cons h
    rw [List.cons_append, glyphsFrom, if_neg (Ne.symm hne), ih hs]
    rfl

theorem glyphsFrom_blockComment {s : List Char} (h : ¬ ['*', '/'] <:+: s) (p : Position)
    (t : List Char) :
    glyphsFrom .blockComment p (s ++ '*' :: '/' :: t) =
      glyphsFrom .code (((p.after s).next '*').next '/') t := by
  induction s generalizing p with
  | nil => rfl
  | cons c s ih =>
    have hs : ¬ ['*', '/'] <:+: s := fun hs => h (hs.trans (List.suffix_cons c s).isInfix)
    rw [List.cons_append, glyphsFrom, ih hs]
    · rfl
    · -- The comment does not end before its own end.
      rintro others rfl hothers
      cases s with
      | nil => cases hothers
      | cons d s =>
        obtain rfl : d = '/' := (List.cons.inj hothers).1
        exact h ⟨[], s, rfl⟩

theorem Filler.glyphsFrom_append (f : Filler) (p : Position) (t : List Char) :
    ∃ gaps, (∀ g ∈ gaps, Glyph.isGap g = true) ∧
      glyphsFrom .code p (f.text ++ t) = gaps ++ glyphsFrom .code (p.after f.text) t := by
  cases f with
  | blank c h => exact ⟨[.gap p], by simp [Glyph.gap, Glyph.isGap], glyphsFrom_blank h p t⟩
  | lineComment text h =>
    have hglyphs := glyphsFrom_lineComment h ((p.next '-').next '-') t
    refine ⟨[.gap p, .gap (((p.next '-').next '-').after text)], ?_, ?_⟩
    · simp [Glyph.gap, Glyph.isGap]
    · simp [Filler.text, glyphsFrom, hglyphs, Position.after_append]
  | blockComment text h =>
    have hglyphs := glyphsFrom_blockComment h ((p.next '/').next '*') t
    refine ⟨[.gap p], ?_, ?_⟩
    · simp [Glyph.gap, Glyph.isGap]
    · simp [Filler.text, glyphsFrom, hglyphs, Position.after_append]

/-! ## Gaps -/

/-- What stands between two texts: a blank, and behind it blanks and comments in any order. -/
structure Gap where
  first : Char
  isBlank_first : isBlank first = true
  fillers : List Filler

/-- The gap as it is written. -/
def Gap.text (gap : Gap) : List Char := gap.first :: gap.fillers.flatMap Filler.text

theorem Gap.beginsSafely_append (gap : Gap) (t : List Char) : BeginsSafely (gap.text ++ t) := by
  have hdash : gap.first ≠ '-' := ne_of_isBlank gap.isBlank_first (by decide)
  have hstar : gap.first ≠ '*' := ne_of_isBlank gap.isBlank_first (by decide)
  exact ⟨fun h => hdash (Option.some.inj h), fun h => hstar (Option.some.inj h)⟩

/-- **A gap leaves gaps behind**, whatever its comments hold. -/
theorem Gap.glyphsFrom_append (gap : Gap) (p : Position) (t : List Char) :
    ∃ gaps, (∀ g ∈ gaps, Glyph.isGap g = true) ∧
      glyphsFrom .code p (gap.text ++ t) =
        .gap p :: gaps ++ glyphsFrom .code (p.after gap.text) t := by
  have hfillers : ∀ (fillers : List Filler) (p : Position),
      ∃ gaps, (∀ g ∈ gaps, Glyph.isGap g = true) ∧
        glyphsFrom .code p (fillers.flatMap Filler.text ++ t) =
          gaps ++ glyphsFrom .code (p.after (fillers.flatMap Filler.text)) t := by
    intro fillers
    induction fillers with
    | nil => exact fun p => ⟨[], by simp, rfl⟩
    | cons f fillers ih =>
      intro p
      obtain ⟨first, hfirst, hf⟩ := f.glyphsFrom_append p (fillers.flatMap Filler.text ++ t)
      obtain ⟨rest, hrest, hfillers⟩ := ih (p.after f.text)
      refine ⟨first ++ rest, ?_, ?_⟩
      · intro g hg
        rcases List.mem_append.mp hg with hg | hg
        · exact hfirst g hg
        · exact hrest g hg
      · rw [List.flatMap_cons, List.append_assoc, hf, hfillers, Position.after_append,
          List.append_assoc]
  obtain ⟨gaps, hgaps, heq⟩ := hfillers gap.fillers (p.next gap.first)
  refine ⟨gaps, hgaps, ?_⟩
  rw [Gap.text, List.cons_append, glyphsFrom_blank gap.isBlank_first, heq]
  rfl

end StoredRoutine.Source
