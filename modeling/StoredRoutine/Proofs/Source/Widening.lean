import Mathlib.Data.List.Infix
import StoredRoutine.Source.Header
import StoredRoutine.Proofs.Package.Outcomes
import StoredRoutine.Proofs.Source.Joining

/-!
# Layout does not matter

Where a source has a blank outside quotes and comments, it can as well have more blanks and any
comments behind it: the same fragments are found, with the same texts, and the same is built of
them. Only the places change.

What is put in is read as gaps behind a gap. `Widens` says of two lists of glyphs that they are the
same up to places and up to how many gaps stand side by side. Cutting out a statement does not see
the difference (`Widens.rel_firstStatement?`), not even when it has to start over at a parenthesis that
is never closed, and collapsing takes it away (`Widens.text_collapseFrom`).

`outline` is what there is to know of a statement, a fragment or an error but for its place.
-/

namespace StoredRoutine

namespace Source

open Text

/-! ## Gaps that are made wider -/

/-- The second list is the first one with more gaps next to some of its gaps. Where the glyphs
stand does not matter. -/
inductive Widens : List Glyph → List Glyph → Prop where
  | nil : Widens [] []
  | glyph {g g' : Glyph} {gs gs' : List Glyph} (hchar : g'.char = g.char)
    (hquoted : g'.quoted = g.quoted) (h : Widens gs gs') : Widens (g :: gs) (g' :: gs')
  | gap {g g' : Glyph} {gs gs' : List Glyph} (hg : g.isGap = true) (hg' : g'.isGap = true)
    (h : Widens (g :: gs) gs') : Widens (g :: gs) (g' :: gs')

namespace Glyph

variable {g g' : Glyph}

theorem isGap_congr (hchar : g'.char = g.char) (hquoted : g'.quoted = g.quoted) :
    g'.isGap = g.isGap := by
  rw [isGap, isGap, hchar, hquoted]

theorem isCode_congr (hchar : g'.char = g.char) (hquoted : g'.quoted = g.quoted) (c : Char) :
    g'.isCode c = g.isCode c := by
  rw [isCode, isCode, hchar, hquoted]

theorem turn_congr (hchar : g'.char = g.char) (hquoted : g'.quoted = g.quoted) :
    g'.turn = g.turn := by
  rw [turn, turn, isCode_congr hchar hquoted, isCode_congr hchar hquoted]

/-- A gap is an unquoted space. -/
theorem of_isGap (hg : g.isGap = true) : g.char = ' ' ∧ g.quoted = false := by
  simp only [isGap, Bool.and_eq_true, Bool.not_eq_true', beq_iff_eq] at hg
  exact ⟨hg.2, hg.1⟩

theorem isCode_of_isGap (hg : g.isGap = true) {c : Char} (hc : c ≠ ' ') : g.isCode c = false := by
  rw [isCode, (of_isGap hg).1, beq_false_of_ne (Ne.symm hc), Bool.and_false]

theorem turn_of_isGap (hg : g.isGap = true) : g.turn = 0 := by
  simp [turn, isCode_of_isGap hg]

end Glyph

namespace Widens

variable {gs gs' : List Glyph}

/-- What stands in front is the same in both. -/
theorem append_left (h : Widens gs gs') (front : List Glyph) :
    Widens (front ++ gs) (front ++ gs') := by
  induction front with
  | nil => exact h
  | cons g front ih => exact .glyph rfl rfl ih

/-- The same glyphs at other places. -/
theorem map_shift (gs : List Glyph) (p q : Position) :
    Widens (gs.map (Glyph.shift p)) (gs.map (Glyph.shift q)) := by
  induction gs with
  | nil => exact .nil
  | cons g gs ih => exact .glyph rfl rfl ih

/-- Gaps in place of one gap. -/
theorem gaps_append {g : Glyph} (hg : g.isGap = true) {gaps : List Glyph} (hne : gaps ≠ [])
    (hgaps : ∀ g ∈ gaps, g.isGap = true) (h : Widens gs gs') :
    Widens (g :: gs) (gaps ++ gs') := by
  induction gaps with
  | nil => exact absurd rfl hne
  | cons g' gaps ih =>
    obtain ⟨hg', hrest⟩ := List.forall_mem_cons.mp hgaps
    cases gaps with
    | nil =>
      obtain ⟨hchar, hquoted⟩ := Glyph.of_isGap hg
      obtain ⟨hchar', hquoted'⟩ := Glyph.of_isGap hg'
      exact .glyph (hchar'.trans hchar.symm) (hquoted'.trans hquoted.symm) h
    | cons next gaps => exact .gap hg hg' (ih (List.cons_ne_nil _ _) hrest)

/-- A gap is passed over. -/
theorem cutAfter?_of_isGap {g : Glyph} (hg : g.isGap = true) (ends : Int → Bool) (depth : Int)
    (gs : List Glyph) :
    cutAfter? ends depth (g :: gs) =
      (cutAfter? ends depth gs).map fun (first, others) => (g :: first, others) := by
  have hnot : ¬ (g.isCode ';' && ends depth) = true := by
    rw [Glyph.isCode_of_isGap hg (by decide), Bool.false_and]
    exact Bool.false_ne_true
  rw [cutAfter?, if_neg hnot, Glyph.turn_of_isGap hg, Int.add_zero]

/-- Two cuts of such lists are at the same place. -/
def Cuts (cut cut' : List Glyph × List Glyph) : Prop :=
  Widens cut.1 cut'.1 ∧ Widens cut.2 cut'.2

/-- **The search for the end of a statement** comes to the same end, or to none in both. -/
theorem rel_cutAfter? (h : Widens gs gs') (ends : Int → Bool) (depth : Int) :
    Option.Rel Cuts (cutAfter? ends depth gs) (cutAfter? ends depth gs') := by
  induction h generalizing depth with
  | nil => exact .none
  | @glyph g g' gs gs' hchar hquoted h ih =>
    rw [cutAfter?, cutAfter?, Glyph.isCode_congr hchar hquoted,
      Glyph.turn_congr hchar hquoted]
    by_cases hend : (g.isCode ';' && ends depth) = true
    · rw [if_pos hend, if_pos hend]
      exact .some ⟨.glyph hchar hquoted .nil, h⟩
    · rw [if_neg hend, if_neg hend]
      have hcut := ih (depth + g.turn)
      generalize cutAfter? ends (depth + g.turn) gs = cut at hcut ⊢
      generalize cutAfter? ends (depth + g.turn) gs' = cut' at hcut ⊢
      cases hcut with
      | none => exact .none
      | some hcuts => exact .some ⟨.glyph hchar hquoted hcuts.1, hcuts.2⟩
  | @gap g g' gs gs' hg hg' h ih =>
    have hfront : ∀ cut ∈ cutAfter? ends depth (g :: gs), ∃ front, cut.1 = g :: front := by
      rintro ⟨first, others⟩ hcut
      obtain ⟨hall, hne⟩ := cutAfter?_eq_some hcut
      obtain ⟨_, front, rfl⟩ := List.exists_cons_of_ne_nil hne
      exact ⟨front, by rw [(List.cons.inj hall).1]⟩
    have hcut := ih depth
    rw [cutAfter?_of_isGap hg']
    generalize cutAfter? ends depth (g :: gs) = cut at hcut hfront ⊢
    generalize cutAfter? ends depth gs' = cut' at hcut ⊢
    cases hcut with
    | none => exact .none
    | @some cut _ hcuts =>
      obtain ⟨first, others⟩ := cut
      obtain ⟨front, rfl⟩ := hfront _ rfl
      exact .some ⟨.gap hg hg' hcuts.1, hcuts.2⟩

theorem depthAfter_eq (h : Widens gs gs') : depthAfter gs = depthAfter gs' := by
  induction h with
  | nil => rfl
  | glyph hchar hquoted _ ih =>
    rw [depthAfter, depthAfter, ih, Glyph.turn_congr hchar hquoted]
  | gap _ hg' _ ih => rw [ih, depthAfter, Glyph.turn_of_isGap hg', Int.zero_add]

/-- **The first statement** is the same, also where it has to be ended inside parentheses. -/
theorem rel_firstStatement? (h : Widens gs gs') :
    Option.Rel Cuts (firstStatement? gs) (firstStatement? gs') := by
  have hcut := h.rel_cutAfter? (· ≤ 0) 0
  rw [firstStatement?, firstStatement?, ← h.depthAfter_eq]
  generalize cutAfter? (· ≤ 0) 0 gs = cut at hcut ⊢
  generalize cutAfter? (· ≤ 0) 0 gs' = cut' at hcut ⊢
  cases hcut with
  | some hcuts => exact .some hcuts
  | none =>
    by_cases hopen : 0 < depthAfter gs
    · simp only [if_pos hopen]
      exact h.rel_cutAfter? (fun _ => true) 0
    · simp only [if_neg hopen]
      exact .none

/-- **Collapsing takes the difference away.** -/
theorem text_collapseFrom (h : Widens gs gs') (afterGap : Bool) :
    Glyph.text (collapseFrom afterGap gs) = Glyph.text (collapseFrom afterGap gs') := by
  induction h generalizing afterGap with
  | nil => rfl
  | @glyph g g' gs gs' hchar hquoted _ ih =>
    rw [collapseFrom, collapseFrom, Glyph.isGap_congr hchar hquoted]
    by_cases hdrop : (g.isGap && afterGap) = true
    · rw [if_pos hdrop, if_pos hdrop, ih]
    · rw [if_neg hdrop, if_neg hdrop, Glyph.text, Glyph.text, List.map_cons, List.map_cons, hchar]
      exact congrArg (g.char :: ·) (ih g.isGap)
  | @gap g g' gs gs' hg hg' _ ih =>
    cases afterGap with
    | true =>
      rw [ih true, collapseFrom.eq_2 true g', hg', Bool.and_true, if_pos rfl]
    | false =>
      -- the gap in front is kept, and the one that both have is dropped in its place
      have hdrop := ih true
      rw [collapseFrom, hg, Bool.and_true, if_pos rfl] at hdrop
      rw [collapseFrom, collapseFrom, hg, hg', Bool.and_false, if_neg Bool.false_ne_true,
        if_neg Bool.false_ne_true, Glyph.text, Glyph.text, List.map_cons, List.map_cons,
        (Glyph.of_isGap hg).1, (Glyph.of_isGap hg').1]
      exact congrArg (' ' :: ·) hdrop

end Widens

/-! ## Statements and fragments -/

/-- What there is to know of a statement but for its place. -/
def Statement.outline (s : Statement) : List Char × Bool := (s.text, s.terminated)

/-- Where no semicolon ends a statement, what is left is the last one, if it has a text. -/
theorem outline_statementsOf_eq_last {gs : List Glyph} (h : firstStatement? gs = none)
    (size : Nat) :
    (statementsOf size gs).map Statement.outline =
      match Glyph.text (collapse gs) with
      | [] => []
      | last => [(last, false)] := by
  rw [statementsOf_eq_last h]
  cases collapse gs <;> rfl

/-- **The statements** are the same, wherever the sources end. -/
theorem Widens.outline_statementsOf {gs gs' : List Glyph} (h : Widens gs gs') (size size' : Nat) :
    (statementsOf size gs).map Statement.outline = (statementsOf size' gs').map Statement.outline := by
  have hlast : ∀ {gs gs' : List Glyph}, Widens gs gs' → firstStatement? gs = none →
      (statementsOf size gs).map Statement.outline =
        (statementsOf size' gs').map Statement.outline := by
    intro gs gs' h hnone
    have hcut := h.rel_firstStatement?
    rw [hnone] at hcut
    generalize hnone' : firstStatement? gs' = cut' at hcut
    cases hcut
    rw [outline_statementsOf_eq_last hnone, outline_statementsOf_eq_last hnone', collapse, collapse,
      h.text_collapseFrom]
  induction gs using statementsOf.induct generalizing gs' with
  | case1 gs first others hfirst ih =>
    have hcut := h.rel_firstStatement?
    rw [hfirst] at hcut
    generalize hfirst' : firstStatement? gs' = cut' at hcut
    cases hcut with
    | @some _ cut' hcuts =>
      obtain ⟨first', others'⟩ := cut'
      rw [statementsOf_eq_cons hfirst, statementsOf_eq_cons hfirst', List.map_cons, List.map_cons,
        ih hcuts.2]
      exact congrArg (fun text => (text, true) :: (statementsOf size' others').map Statement.outline)
        (hcuts.1.text_collapseFrom true)
  | case2 gs hfirst _ => exact hlast h hfirst
  | case3 gs hfirst _ => exact hlast h hfirst

/-- What there is to know of a fragment but for its place. -/
def Fragment.outline (f : Fragment) : Kind × String × Bool := (f.kind, f.text, f.terminated)

/-- What the fragment of a statement is, if only this much is known of the statement. -/
def fragmentOutline? (outline : List Char × Bool) : Option (Kind × String × Bool) := do
  let (i, kind) ← declarationStart? (words outline.1)
  let _ ← outline.1[i]?
  return (kind, String.ofList (trimEnd (outline.1.drop i)), outline.2)

theorem Statement.outline_fragment? (s : Statement) :
    s.fragment?.map Fragment.outline = fragmentOutline? s.outline := by
  unfold fragment? fragmentOutline?
  rw [outline]
  dsimp only
  cases declarationStart? (words s.text) with
  | none => rfl
  | some found =>
    obtain ⟨i, kind⟩ := found
    have hchar : s.text[i]? = s.glyphs[i]?.map Glyph.char := List.getElem?_map
    simp only [Option.bind_eq_bind, Option.bind_some, hchar]
    cases s.glyphs[i]? <;> rfl

/-- The header is read off the text of a statement. -/
def headerName? (text : List Char) : Option String := do
  let (i, _) ← wordAfterPackage? (words text)
  let qualified := (text.drop i).takeWhile fun c => !isBlank c && c ≠ '(' && c ≠ ';'
  let name := trimQuotes (afterLastDot qualified)
  if name.isEmpty || sameLetters name "body".toList then none else some (String.ofList name)

theorem packageName?_eq (source : String) :
    packageName? source =
      ((statements source.toList).map Statement.outline).head?.bind fun s => headerName? s.1 := by
  rw [packageName?, List.head?_map]
  cases (statements source.toList).head? <;> rfl

theorem map_outline_scan (source : String) :
    (scan source).map Fragment.outline =
      ((statements source.toList).map Statement.outline).filterMap fragmentOutline? := by
  rw [scan, List.map_filterMap, List.filterMap_map]
  exact congrArg (List.filterMap · _) (funext Statement.outline_fragment?)

/-! ## Where there is room -/

/-- No blank completes the opening or the closing of a comment. -/
theorem glyphsFrom_append_blank {w : Char} (hw : isBlank w = true) (around : Surround)
    (p : Position) (s t : List Char) :
    glyphsFrom around p (s ++ w :: t) =
      glyphsFrom around p s ++ glyphsFrom (surroundAfter around s) (p.after s) (w :: t) := by
  have hother {d : Char} (hd : isBlank d = false) : (w :: t).head? ≠ some d :=
    fun h => ne_of_isBlank hw hd (Option.some.inj h)
  exact glyphsFrom_append_of_meetApart
    (fun _ _ => ⟨fun h => hother rfl h.2, fun h => hother rfl h.2⟩) (fun _ => hother rfl)

/-- A blank behind the text stands outside quotes and outside comments. The end of a line is not
part of the comment that it ends. -/
def StandsOpen (a : List Char) (w : Char) : Prop :=
  surroundAfter .code a = .code ∨ surroundAfter .code a = .lineComment ∧ w = '\n'

instance (a : List Char) (w : Char) : Decidable (StandsOpen a w) :=
  inferInstanceAs (Decidable (_ ∨ _))

/-- A text is read by itself up to a blank in the open, and what follows it in the open. -/
theorem StandsOpen.glyphs_append {a : List Char} {w : Char} (h : StandsOpen a w)
    (hw : isBlank w = true) (t : List Char) :
    glyphs (a ++ w :: t) = glyphs a ++ glyphsFrom .code (Position.start.after a) (w :: t) := by
  rw [glyphs, glyphsFrom_append_blank hw]
  rcases h with hcode | ⟨hcomment, rfl⟩
  · rw [hcode]
    rfl
  · rw [hcomment, glyphsFrom_blank hw]
    rfl

/-- **Fillers behind a blank widen its gap.** -/
theorem StandsOpen.widens {a : List Char} {w : Char} (h : StandsOpen a w) (hw : isBlank w = true)
    (fillers : List Filler) (b : List Char) :
    Widens (glyphs (a ++ w :: b)) (glyphs (a ++ w :: (fillers.flatMap Filler.text ++ b))) := by
  obtain ⟨gaps, hgaps, hfilled⟩ :=
    (Gap.mk w hw fillers).glyphsFrom_append (Position.start.after a) b
  have hall : ∀ g ∈ Glyph.gap (Position.start.after a) :: gaps, g.isGap = true :=
    List.forall_mem_cons.mpr ⟨rfl, hgaps⟩
  rw [Gap.text, List.cons_append] at hfilled
  rw [h.glyphs_append hw, h.glyphs_append hw, glyphsFrom_blank hw, hfilled, glyphsFrom_origin,
    glyphsFrom_origin]
  exact (Widens.gaps_append rfl (List.cons_ne_nil _ _) hall (Widens.map_shift _ _ _)).append_left _

end Source

/-! ## Reports -/

/-- The error without the line and the column where it arose. -/
def Error.outline (e : Error) : Error :=
  { e with context := e.context.map fun c => { c with line := none, column := none } }

namespace Report

open Source

/-- What a fragment comes to, if all but its place is known of it. -/
def outcomeOutline (types : TypeTable) (name : String) (outline : Kind × String × Bool) :
    Except Error Member :=
  let (kind, text, terminated) := outline
  let f : Fragment := ⟨kind, text, ⟨0, 0, 0, 0⟩, terminated⟩
  (memberOf types f).mapError fun e => (e.within (contextOf name f)).outline

theorem map_outline_outcomes (types : TypeTable) (name source : String) :
    (outcomes types name source).map (mapBoth Error.outline id) =
      ((scan source).map Fragment.outline).map (outcomeOutline types name) := by
  rw [outcomes, List.map_map, List.map_map]
  refine List.map_congr_left fun f _ => ?_
  have hmember : memberOf types ⟨f.kind, f.text, ⟨0, 0, 0, 0⟩, f.terminated⟩ = memberOf types f :=
    rfl
  rw [Function.comp_apply, Function.comp_apply, Fragment.outline, outcomeOutline, hmember]
  cases memberOf types f <;> rfl

/-- What is built does not depend on where the fragments stand. -/
theorem package_eq_of_outline {source source' : String}
    (h : (scan source').map Fragment.outline = (scan source).map Fragment.outline)
    (types : TypeTable) (name : String) :
    (ofSource types name source').package = (ofSource types name source).package ∧
      (ofSource types name source').errors.map Error.outline =
        (ofSource types name source).errors.map Error.outline := by
  have houtcomes : (outcomes types name source').map (mapBoth Error.outline id) =
      (outcomes types name source).map (mapBoth Error.outline id) := by
    rw [map_outline_outcomes, map_outline_outcomes, h]
  obtain ⟨hmembers, herrors⟩ := map_eq_of_outcomes houtcomes
  rw [List.map_id, List.map_id] at hmembers
  exact ⟨congrArg (Package.mk name) hmembers, herrors⟩

end Report

namespace Source

open Text

/-! ## Main statement -/

/-- **Layout does not matter.** Where a blank stands outside quotes and outside comments, blanks and
comments can be put in behind it, whatever the comments hold. The same fragments are found, the
header has the same name, and the same members are built and the same errors reported. Only the
places differ. -/
theorem outline_scan_fill (a b : String) {w : Char} (hw : isBlank w = true)
    (hopen : StandsOpen a.toList w) (fillers : List Filler) :
    let source := a ++ String.singleton w ++ b
    let filled := a ++ String.singleton w ++ String.ofList (fillers.flatMap Filler.text) ++ b
    (scan filled).map Fragment.outline = (scan source).map Fragment.outline ∧
      packageName? filled = packageName? source ∧
      ∀ (types : TypeTable) (name : String),
        (Report.ofSource types name filled).package = (Report.ofSource types name source).package ∧
          (Report.ofSource types name filled).errors.map Error.outline =
            (Report.ofSource types name source).errors.map Error.outline := by
  intro source filled
  have hsource : source.toList = a.toList ++ w :: b.toList := by simp [source]
  have hfilled : filled.toList = a.toList ++ w :: (fillers.flatMap Filler.text ++ b.toList) := by
    simp [filled]
  have hstatements : (statements filled.toList).map Statement.outline =
      (statements source.toList).map Statement.outline := by
    rw [hsource, hfilled]
    exact ((hopen.widens hw fillers b.toList).outline_statementsOf _ _).symm
  have hscan : (scan filled).map Fragment.outline = (scan source).map Fragment.outline := by
    rw [map_outline_scan, map_outline_scan, hstatements]
  refine ⟨hscan, ?_, Report.package_eq_of_outline hscan⟩
  rw [packageName?_eq, packageName?_eq, hstatements]

/-- A list of arguments is never closed, and what is put into it looks like the end of a string, of
the list and of the declaration. -/
theorem outline_scan_fill_of_unclosed :
    let a := "package P is procedure A(y"
    let b := "number; function C return number;"
    let fillers : List Filler := [.lineComment " it's );".toList (by decide), .blank '\t' rfl,
      .blockComment "(';--".toList (by decide)]
    let filled := "package P is procedure A(y -- it's );\n\t/*(';--*/number; function C return number;"
    a ++ String.singleton ' ' ++ String.ofList (fillers.flatMap Filler.text) ++ b = filled ∧
      isBlank ' ' = true ∧ StandsOpen a.toList ' ' ∧
      (scan filled).map Fragment.outline =
        (scan "package P is procedure A(y number; function C return number;").map
          Fragment.outline ∧
      (scan filled).map Fragment.outline = [
        (.procedure, "procedure A(y number;", true), (.function, "function C return number;", true)] ∧
      packageName? filled = some "P" := by
  intro a b fillers filled
  have hopen : StandsOpen a.toList ' ' := by decide
  obtain ⟨hscan, hname, -⟩ := outline_scan_fill a b rfl hopen fillers
  have hfilled :
      a ++ String.singleton ' ' ++ String.ofList (fillers.flatMap Filler.text) ++ b = filled := by
    decide +kernel
  have hsource : a ++ String.singleton ' ' ++ b =
      "package P is procedure A(y number; function C return number;" := by
    decide +kernel
  rw [hfilled, hsource] at hscan hname
  refine ⟨hfilled, rfl, hopen, hscan, hscan.trans ?_, hname.trans ?_⟩
  · decide +kernel
  · decide +kernel

end Source

end StoredRoutine
