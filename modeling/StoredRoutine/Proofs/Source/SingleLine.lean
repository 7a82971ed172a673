import StoredRoutine.Proofs.Source.Rescanning
import StoredRoutine.Proofs.Source.Sections

/-!
# Fragments are on a single line

Whatever a source looks like, each of its fragments is on a single line (`Fragment.IsSingleLine`).
Outside quotes its blanks are single spaces with something between them and at both ends, no comment
begins in it, and the semicolon that ends it stands outside quotes.

Inside quotes nothing is touched. A fragment is read from a part of the source, which is read by
itself, and so are the parts in front of it and behind it. So the closed quoted sections of the
source are those of the three parts in order, and those of the fragment are the ones in the middle
(`exists_sections_of_mem_scanFrom`).
-/

namespace StoredRoutine.Source

open Text

/-! ## Quoted sections -/

/-- The sections of a text in normal form are those of what it was read from. -/
theorem textSections_trimEnd_collapse (p : Position) (s : List Char) :
    textSections (trimEnd (Glyph.text (collapse (glyphsFrom .code p s)))) = quotedSections s := by
  obtain ⟨blanks, hparts, hblanks⟩ :=
    exists_trimEnd_append (Glyph.text (collapse (glyphsFrom .code p s)))
  have htrim := textSections_append_of_no_quote
    (trimEnd (Glyph.text (collapse (glyphsFrom .code p s)))) fun c hc =>
      isQuote_of_isBlank (hblanks c hc)
  rw [← htrim, ← hparts, textSections_collapse (legible_glyphsFrom .code p s .start rfl),
    quotedSections_eq p]

/-- **The sections of the fragment of one statement.** -/
theorem Statement.exists_sections_of_fragment? {p : Position} {s : List Char} {terminated : Bool}
    {f : Fragment} (h : (ofText p s terminated).fragment? = some f) :
    ∃ before inside, s = before ++ inside ∧ f.span.start = (p.after before).offset ∧
      f.span.stop = (p.after (before ++ inside)).offset ∧
      textSections f.text.toList = quotedSections inside ∧
      quotedSections s = quotedSections before ++ quotedSections inside := by
  obtain ⟨hstop, -⟩ := end_of_fragment? h
  obtain ⟨before, inside, front, c, rfl, -, -, htext, hplace, -, -, htwo⟩ :=
    exists_of_fragment?_ofText h
  refine ⟨before, inside, rfl, congrArg Position.offset hplace, hstop, ?_,
    htwo.quotedSections_append⟩
  rw [htext, textSections_trimEnd_collapse]

/-- **The sections of the fragments of a text.** -/
theorem exists_sections_of_mem_scanFrom (p : Position) (s : List Char) :
    ∀ f ∈ scanFrom p s, ∃ before inside behind, s = before ++ (inside ++ behind) ∧
      f.span.start = (p.after before).offset ∧ f.span.stop = (p.after (before ++ inside)).offset ∧
      textSections f.text.toList = quotedSections inside ∧
      quotedSections s =
        quotedSections before ++ (quotedSections inside ++ quotedSections behind) := by
  induction hlength : s.length using Nat.strongRecOn generalizing p s with
  | ind length ih =>
    intro f hf
    cases hfirst : firstStatement? (glyphsFrom .code p s) with
    | none =>
      rw [scanFrom_eq_last hfirst] at hf
      obtain ⟨before, inside, rfl, hstart, hstop, htext, hsections⟩ :=
        Statement.exists_sections_of_fragment? (Option.mem_toList.mp hf)
      have hnothing : quotedSections [] = [] := by rw [quotedSections]
      refine ⟨before, inside, [], by rw [List.append_nil], hstart, hstop, htext, ?_⟩
      rw [hsections, hnothing, List.append_nil]
    | some cut =>
      obtain ⟨u, rest, rfl, hlast, -, -, hscan, htwo⟩ := exists_scanFrom_eq hfirst
      rw [hscan] at hf
      rcases List.mem_append.mp hf with hf | hf
      · obtain ⟨before, inside, rfl, hstart, hstop, htext, hsections⟩ :=
          Statement.exists_sections_of_fragment? (Option.mem_toList.mp hf)
        refine ⟨before, inside, rest, List.append_assoc _ _ _, hstart, hstop, htext, ?_⟩
        rw [(htwo rest).quotedSections_append, hsections, List.append_assoc]
      · have hshorter : rest.length < length := by
          have hpos : 0 < u.length := by
            refine List.length_pos_iff.mpr ?_
            rintro rfl
            cases hlast
          rw [← hlength, List.length_append]
          omega
        obtain ⟨before, inside, behind, rfl, hstart, hstop, htext, hsections⟩ :=
          ih _ hshorter (p.after u) rest rfl f hf
        refine ⟨u ++ before, inside, behind, (List.append_assoc _ _ _).symm, ?_, ?_, htext, ?_⟩
        · rw [hstart, Position.after_append]
        · rw [hstop, ← Position.after_append, List.append_assoc]
        · rw [(htwo _).quotedSections_append, hsections, (htwo before).quotedSections_append,
            List.append_assoc]

/-! ## The end of a fragment -/

/-- **The semicolon that ends a fragment** stands outside quotes. -/
theorem exists_semicolon_of_mem_scan {source : String} {f : Fragment} (hf : f ∈ scan source)
    (hterminated : f.terminated = true) :
    ∃ s, f.text.toList = s ++ [';'] ∧ (Nesting.start.after s).quote = none := by
  obtain ⟨a, s, htext, hspec, ha⟩ := exists_terminated_of_mem_scan hf hterminated
  have habove : Nesting.Above (-(Nesting.start.after a).depth) (Nesting.start.after a) .start :=
    ⟨ha.symm, (Int.add_right_neg _).symm⟩
  have hquote := hspec.quote
  rw [Nesting.after_append, ← (habove.after s).quote] at hquote
  exact ⟨s, htext, hquote⟩

/-- Only the last statement can be without a semicolon. -/
theorem pairwise_statementsOf (size : Nat) (gs : List Glyph) :
    (statementsOf size gs).Pairwise fun s _ => s.terminated = true := by
  fun_induction statementsOf size gs with
  | case1 gs first others hfirst ih => exact List.pairwise_cons.mpr ⟨fun _ _ => rfl, ih⟩
  | case2 gs hnone hlast => exact .nil
  | case3 gs hnone hlast => exact List.pairwise_singleton _ _

theorem terminated_of_mem_dropLast {source : String} {f : Fragment}
    (hf : f ∈ (scan source).dropLast) : f.terminated = true := by
  have hpairwise : (scan source).Pairwise fun f _ => f.terminated = true := by
    refine (pairwise_statementsOf _ _).filterMap _ fun s _ hs f hf _ _ => ?_
    rw [(Statement.end_of_fragment? hf).2, hs]
  have hne : scan source ≠ [] := by
    intro hnil
    rw [hnil] at hf
    cases hf
  rw [← List.dropLast_append_getLast hne] at hpairwise
  exact (List.pairwise_append.mp hpairwise).2.2 f hf _ List.mem_cons_self

/-! ## Main statement -/

/-- **The text is on a single line**, but for what stands in quotes. What stands behind `a` is
outside quotes if no quote is open there. -/
structure Fragment.IsSingleLine (f : Fragment) : Prop where
  /-- Outside quotes every blank is a space, with no blank behind it. -/
  blanks : ∀ a c b, f.text.toList = a ++ c :: b → (Nesting.start.after a).quote = none →
    isBlank c = true → c = ' ' ∧ ∃ d, b.head? = some d ∧ isBlank d = false
  /-- Outside quotes no comment begins. -/
  comments : ∀ a b, f.text.toList = a ++ b → (Nesting.start.after a).quote = none →
    ¬ ['-', '-'] <+: b ∧ ¬ ['/', '*'] <+: b
  trimmed : IsTrimmed f.text.toList
  /-- The semicolon stands outside quotes. -/
  semicolon : f.terminated = true →
    ∃ s, f.text.toList = s ++ [';'] ∧ (Nesting.start.after s).quote = none

/-- **The closed quoted sections of the fragment** are those of the part of the source that its span
covers, and the source has them between those in front of the span and those behind it. -/
def Fragment.KeepsSections (f : Fragment) (source : String) : Prop :=
  ∃ before inside behind, source.toList = before ++ (inside ++ behind) ∧
    f.span.start = byteLength before ∧ f.span.stop = byteLength (before ++ inside) ∧
    quotedSections f.text.toList = quotedSections inside ∧
    quotedSections source.toList =
      quotedSections before ++ (quotedSections inside ++ quotedSections behind)

section Fragment

variable {source : String} {f : Fragment} (hf : f ∈ scan source)

include hf

theorem isSingleLine_of_mem_scan : f.IsSingleLine := by
  -- what stands in the open is tidy
  have htidy : ∀ a c b, f.text.toList = a ++ c :: b → (Nesting.start.after a).quote = none →
      isQuote c = false → isTidyAt c b = true := by
    intro a c b hparts hquote hc
    have htidy := tidy_of_mem_scan hf
    rw [hparts] at htidy
    obtain ⟨hhere, -⟩ := of_everyOpen_cons (everyOpen_right htidy)
    have hopen : ((Nesting.start.after a).depthAt? c).isNone = false := by
      rw [isNone_depthAt?, hquote, hc]
      rfl
    obtain ⟨d, hd⟩ := Option.isSome_iff_exists.mp (Option.isNone_eq_false_iff.mp hopen)
    rw [hd] at hhere
    exact hhere
  refine ⟨fun a c b hparts hquote hblank => ?_, fun a b hparts hquote => ⟨?_, ?_⟩,
    isTrimmed_of_mem_scan hf, exists_semicolon_of_mem_scan hf⟩
  · obtain ⟨hspace, hnext⟩ :=
      eq_space_of_isTidyAt (htidy a c b hparts hquote (isQuote_of_isBlank hblank)) hblank
    cases hd : b.head? with
    | none =>
      rw [hd] at hnext
      cases hnext
    | some d =>
      rw [hd, Option.any_some, Bool.not_eq_true'] at hnext
      exact ⟨hspace, d, rfl, hnext⟩
  · rintro ⟨rest, rfl⟩
    exact (not_comment_of_isTidyAt (htidy a '-' ('-' :: rest) hparts hquote rfl)).1 ⟨rfl, rfl⟩
  · rintro ⟨rest, rfl⟩
    exact (not_comment_of_isTidyAt (htidy a '/' ('*' :: rest) hparts hquote rfl)).2 ⟨rfl, rfl⟩

/-- There are no comments in the text of a fragment. -/
theorem quotedSections_text_of_mem_scan :
    quotedSections f.text.toList = textSections f.text.toList := by
  have hglyphs := glyphs_of_mem_scan hf
  rw [glyphs] at hglyphs
  rw [quotedSections_eq .start, hglyphs, text_ofText]

theorem keepsSections_of_mem_scan : f.KeepsSections source := by
  rw [scan_eq_scanFrom] at hf
  obtain ⟨before, inside, behind, hparts, hstart, hstop, htext, hsections⟩ :=
    exists_sections_of_mem_scanFrom .start source.toList f hf
  rw [← scan_eq_scanFrom] at hf
  have hoffset : ∀ s, (Position.start.after s).offset = byteLength s := by
    intro s
    rw [Position.offset_after]
    exact Nat.zero_add _
  rw [hoffset] at hstart hstop
  exact ⟨before, inside, behind, hparts, hstart, hstop,
    (quotedSections_text_of_mem_scan hf).trans htext, hsections⟩

end Fragment

/-- **Fragments are on a single line**, for every source, whether its parentheses balance or not.
Each of its fragments is on a single line and keeps the closed quoted sections of its part of the
source as they are, in order; and all fragments but the last one end in a semicolon. -/
theorem scan_singleLine (source : String) :
    (∀ f ∈ scan source, f.IsSingleLine ∧ f.KeepsSections source) ∧
      ∀ f ∈ (scan source).dropLast, f.terminated = true :=
  ⟨fun _ hf => ⟨isSingleLine_of_mem_scan hf, keepsSections_of_mem_scan hf⟩,
    fun _ hf => terminated_of_mem_dropLast hf⟩

/-- Comments stand between operators, inside quotes and with quotes in them, the parenthesis of a
procedure is never closed, and the source breaks off in a constant. -/
theorem scan_singleLine_of_abutting_comments :
    let source := "package P is\n  procedure Q(a number := 'it''s  --'//* ; '*/* 2;\n" ++
      "  name\tconstant varchar2 := \"x\"--'y'\n|| 'z' \"w  "
    let p : Fragment :=
      ⟨.procedure, "procedure Q(a number := 'it''s  --'/ * 2;", ⟨15, 63, 2, 3⟩, true⟩
    let c : Fragment :=
      ⟨.constant, "name constant varchar2 := \"x\" || 'z' \"w", ⟨66, 112, 3, 3⟩, false⟩
    scan source = [p, c] ∧ p.terminated = true ∧ (p.IsSingleLine ∧ p.KeepsSections source) ∧
      quotedSections p.text.toList = ["'it''s  --'".toList] ∧
      (c.IsSingleLine ∧ c.KeepsSections source) ∧
      quotedSections c.text.toList = ["\"x\"".toList, "'z'".toList] := by
  intro source p c
  have hscan : scan source = [p, c] := by decide +kernel
  obtain ⟨hall, hlast⟩ := scan_singleLine source
  rw [hscan] at hall hlast
  exact ⟨hscan, hlast p List.mem_cons_self, hall p (by simp), by decide +kernel, hall c (by simp),
    by decide +kernel⟩

end StoredRoutine.Source
