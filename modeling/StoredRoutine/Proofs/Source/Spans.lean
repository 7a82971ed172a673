import StoredRoutine.Proofs.Source.Isolation
import StoredRoutine.Proofs.Source.Places
import StoredRoutine.Proofs.Source.Recovery
import StoredRoutine.Proofs.Source.Words

/-!
# Spans point at declarations

The statements of a source stand one behind the other in it (`exists_of_firstStatement?`), and a
declaration is what its statement holds from one of its words on (`exists_of_fragment?_ofText`). So
its span can be read off the source: it begins at the first character of that word, and ends where
the statement does (`scan_spans`).

A declaration whose parentheses balance can be cut out of its source. A semicolon in it that ended
nothing stands in parentheses of its own, so nothing changes when what comes before is left out
(`Ends.statementsOf_right`).
-/

namespace StoredRoutine.Source

open Text

/-! ## What is passed over -/

section Cut

variable {ends : Int → Bool} {depth : Int} {gs hs : List Glyph}

/-- Glyphs that hold no end are passed over. -/
theorem cutAfter?_append_of_none (h : cutAfter? ends depth gs = none) (hs : List Glyph) :
    cutAfter? ends depth (gs ++ hs) = (cutAfter? ends (depth + depthAfter gs) hs).map
      fun (first, others) => (gs ++ first, others) := by
  induction gs generalizing depth with
  | nil => simp [depthAfter]
  | cons g gs ih =>
    rw [cutAfter?] at h
    rw [List.cons_append, cutAfter?, depthAfter, ← Int.add_assoc]
    split_ifs at h ⊢ with hend
    rw [ih (Option.map_eq_none_iff.mp h), Option.map_map]
    rfl

theorem of_cutAfter?_append_eq_none (h : cutAfter? ends depth (gs ++ hs) = none) :
    cutAfter? ends depth gs = none ∧ cutAfter? ends (depth + depthAfter gs) hs = none := by
  have hgs : cutAfter? ends depth gs = none := by
    cases hcut : cutAfter? ends depth gs with
    | none => rfl
    | some cut =>
      rw [cutAfter?_append hcut] at h
      cases h
  rw [cutAfter?_append_of_none hgs] at h
  exact ⟨hgs, Option.map_eq_none_iff.mp h⟩

/-- What comes before the end that is found holds none. -/
theorem of_cutAfter?_eq_some {g : Glyph} {others : List Glyph}
    (h : cutAfter? ends depth gs = some (hs ++ [g], others)) :
    cutAfter? ends depth hs = none ∧ g.isCode ';' = true ∧ ends (depth + depthAfter hs) = true := by
  induction hs generalizing depth gs with
  | nil =>
    cases gs with
    | nil => cases h
    | cons first gs =>
      rw [cutAfter?] at h
      split_ifs at h with hend
      · cases h
        rw [Bool.and_eq_true] at hend
        exact ⟨rfl, hend.1, by simpa [depthAfter] using hend.2⟩
      · obtain ⟨⟨first', others'⟩, hcut, heq⟩ := Option.map_eq_some_iff.mp h
        cases heq
        exact absurd rfl (cutAfter?_eq_some hcut).2
  | cons e hs ih =>
    cases gs with
    | nil => cases h
    | cons first gs =>
      rw [cutAfter?] at h
      split_ifs at h with hend
      · obtain ⟨heq, -⟩ := Prod.mk.inj (Option.some.inj h)
        simp at heq
      · obtain ⟨⟨first', others'⟩, hcut, heq⟩ := Option.map_eq_some_iff.mp h
        cases heq
        obtain ⟨hnone, hsemicolon, hdepth⟩ := ih hcut
        refine ⟨?_, hsemicolon, ?_⟩
        · rw [cutAfter?, if_neg hend, hnone]
          rfl
        · rwa [depthAfter, ← Int.add_assoc]

/-- A stricter search finds no end where there was none. -/
theorem cutAfter?_eq_none_of_imp {ends' : Int → Bool} {depth' : Int}
    (himp : ∀ d, ends' (depth' + d) = true → ends (depth + d) = true)
    (h : cutAfter? ends depth gs = none) : cutAfter? ends' depth' gs = none := by
  induction gs generalizing depth depth' with
  | nil => rfl
  | cons g gs ih =>
    rw [cutAfter?] at h ⊢
    split_ifs at h with hend
    have hnot : ¬ (g.isCode ';' && ends' depth') = true := by
      rw [Bool.and_eq_true] at hend ⊢
      have hhere := himp 0
      rw [Int.add_zero, Int.add_zero] at hhere
      exact fun hg => hend ⟨hg.1, hhere hg.2⟩
    have hnext : ∀ d, ends' (depth' + g.turn + d) = true → ends (depth + g.turn + d) = true := by
      intro d
      rw [Int.add_assoc, Int.add_assoc]
      exact himp (g.turn + d)
    rw [if_neg hnot, ih hnext (Option.map_eq_none_iff.mp h)]
    rfl

end Cut

/-! ## A part of a statement -/

/-- The glyphs are a statement that its semicolon ends, or what no semicolon ends. -/
def Ends : Bool → List Glyph → Prop
  | true, gs => ∃ all others, firstStatement? all = some (gs, others)
  | false, gs => firstStatement? gs = none

/-- The semicolon that ends a statement comes last. -/
theorem Ends.exists_semicolon {front gs : List Glyph} (h : Ends true (front ++ gs))
    (hgs : gs ≠ []) : ∃ body g, gs = body ++ [g] ∧ g.isCode ';' = true := by
  obtain ⟨all, others, h⟩ := h
  obtain ⟨body, g, rfl⟩ := (List.eq_nil_or_concat gs).resolve_left hgs
  rw [List.concat_eq_append] at h ⊢
  rw [← List.append_assoc] at h
  refine ⟨body, g, rfl, ?_⟩
  unfold firstStatement? at h
  split at h
  · next hcut => exact (of_cutAfter?_eq_some (hcut.trans h)).2.1
  · split_ifs at h
    exact (of_cutAfter?_eq_some h).2.1

theorem turn_of_isCode {g : Glyph} (h : g.isCode ';' = true) : g.turn = 0 := by
  simp only [Glyph.isCode, Bool.and_eq_true, beq_iff_eq] at h
  simp [Glyph.turn, Glyph.isCode, h.2]

/-- **The level end of a statement** is a statement. -/
theorem firstStatement?_of_level {all front gs others : List Glyph} {g : Glyph}
    (h : firstStatement? all = some (front ++ gs ++ [g], others)) (hlevel : depthAfter gs = 0) :
    firstStatement? (gs ++ [g]) = some (gs ++ [g], []) := by
  obtain ⟨hnone, hg⟩ : cutAfter? (· ≤ 0) 0 gs = none ∧ g.isCode ';' = true := by
    unfold firstStatement? at h
    split at h
    · next hcut =>
      obtain ⟨hnone, hg, hdepth⟩ := of_cutAfter?_eq_some (hcut.trans h)
      rw [depthAfter_append, hlevel] at hdepth
      have hle : depthAfter front ≤ 0 := by simpa using hdepth
      refine ⟨cutAfter?_eq_none_of_imp (fun d hd => ?_) (of_cutAfter?_append_eq_none hnone).2, hg⟩
      rw [decide_eq_true_eq] at hd ⊢
      omega
    · split_ifs at h
      -- the statement is cut at its first semicolon
      obtain ⟨hnone, hg, -⟩ := of_cutAfter?_eq_some h
      exact ⟨cutAfter?_eq_none_of_imp (fun _ _ => rfl) (of_cutAfter?_append_eq_none hnone).2, hg⟩
  have hcut : cutAfter? (· ≤ 0) 0 (gs ++ [g]) = some (gs ++ [g], []) := by
    rw [cutAfter?_append_of_none hnone, hlevel, cutAfter?, hg]
    rfl
  rw [firstStatement?, hcut]

/-- The level end of what no semicolon ends is not ended by one, either. -/
theorem firstStatement?_eq_none_of_level {front gs : List Glyph}
    (h : firstStatement? (front ++ gs) = none) (hlevel : depthAfter gs = 0) :
    firstStatement? gs = none := by
  have hnone : cutAfter? (· ≤ 0) 0 gs = none := by
    unfold firstStatement? at h
    split at h
    · cases h
    · next hcut =>
      by_cases hopen : 0 < depthAfter (front ++ gs)
      · rw [if_pos hopen] at h
        exact cutAfter?_eq_none_of_imp (fun _ _ => rfl) (of_cutAfter?_append_eq_none h).2
      · rw [depthAfter_append, hlevel] at hopen
        refine cutAfter?_eq_none_of_imp (fun d hd => ?_) (of_cutAfter?_append_eq_none hcut).2
        rw [decide_eq_true_eq] at hd ⊢
        omega
  have hnot : ¬ 0 < depthAfter gs := by omega
  rw [firstStatement?, hnone]
  exact if_neg hnot

/-- **The level end of a statement, by itself**, is the one statement of its glyphs. -/
theorem Ends.statementsOf_right {terminated : Bool} {front gs : List Glyph}
    (h : Ends terminated (front ++ gs)) (hlevel : depthAfter gs = 0) (hcollapse : collapse gs ≠ [])
    {size : Nat} (hsize : terminated = true → stopAfter gs = size) :
    statementsOf size gs = [⟨collapse gs, size, terminated⟩] := by
  cases terminated with
  | true =>
    have hgs : gs ≠ [] := by
      rintro rfl
      exact hcollapse rfl
    obtain ⟨body, g, rfl, hg⟩ := h.exists_semicolon hgs
    obtain ⟨all, others, hfirst⟩ := h
    have hbody : depthAfter body = 0 := by
      rw [depthAfter_append, depthAfter, turn_of_isCode hg] at hlevel
      simpa [depthAfter] using hlevel
    rw [← List.append_assoc] at hfirst
    rw [statementsOf_eq_cons (firstStatement?_of_level hfirst hbody), statementsOf_nil, hsize rfl]
  | false =>
    rw [statementsOf_eq_last (firstStatement?_eq_none_of_level h hlevel)]
    cases hgs : collapse gs with
    | nil => exact absurd hgs hcollapse
    | cons g rest => rfl

/-! ## Level texts -/

/-- Reading the text of the glyphs comes to the depth that the glyphs come to. -/
theorem Legible.depth_after {n : Nesting} {gs : List Glyph} (h : Legible n gs) :
    (n.after (Glyph.text gs)).depth = n.depth + depthAfter gs := by
  induction gs generalizing n with
  | nil => simp [Glyph.text, depthAfter]
  | cons g gs ih =>
    obtain ⟨hmark, -, hgs⟩ := h
    have hturn : n.depth + g.turn = (n.step g.char).depth := by
      rw [← depth_step n g.char g.place, ← hmark]
    rw [Glyph.text_cons, Nesting.after_cons, ih hgs, depthAfter, ← Int.add_assoc, hturn]

/-- The parentheses of a text that balances come to depth zero. The blanks that are trimmed do not
count. -/
theorem Legible.depthAfter_eq_zero {gs : List Glyph} (h : Legible .start gs)
    (hbalanced : isBalanced (trimEnd (Glyph.text (collapse gs))) = true) : depthAfter gs = 0 := by
  have hcollapse : Nesting.start.after (Glyph.text (collapse gs)) =
      Nesting.start.after (Glyph.text gs) :=
    h.after_collapseFrom true
  rw [← (padded_trimEnd _).isBalanced_eq, isBalanced, hcollapse, Nesting.isLevel,
    Bool.and_eq_true, beq_iff_eq, h.depth_after] at hbalanced
  simpa [Nesting.start] using hbalanced.1

/-- What comes before a glyph that is no gap, and what comes behind it, is collapsed apart. -/
theorem exists_of_collapseFrom_eq {afterGap : Bool} {gs front back : List Glyph} {g : Glyph}
    (hg : g.isGap = false) (h : collapseFrom afterGap gs = front ++ g :: back) :
    ∃ pre post, gs = pre ++ g :: post ∧ front = collapseFrom afterGap pre ∧
      back = collapseFrom false post := by
  induction gs generalizing afterGap front with
  | nil => simp [collapseFrom] at h
  | cons first gs ih =>
    rw [collapseFrom] at h
    split_ifs at h with hdrop
    · obtain ⟨pre, post, rfl, rfl, rfl⟩ := ih h
      exact ⟨first :: pre, post, rfl, by rw [collapseFrom, if_pos hdrop], rfl⟩
    · cases front with
      | nil =>
        obtain ⟨rfl, rfl⟩ := List.cons.inj h
        exact ⟨[], gs, rfl, rfl, by rw [hg]⟩
      | cons e front =>
        obtain ⟨rfl, hrest⟩ := List.cons.inj h
        obtain ⟨pre, post, rfl, rfl, rfl⟩ := ih hrest
        exact ⟨first :: pre, post, rfl, by rw [collapseFrom, if_neg hdrop], rfl⟩

/-! ## Statements of a text -/

/-- The statement that a text makes if all of it belongs to one, where `p` is the place at which it
begins. -/
def Statement.ofText (p : Position) (s : List Char) (terminated : Bool) : Statement where
  glyphs := collapse (glyphsFrom .code p s)
  stop := (p.after s).offset
  terminated := terminated

/-- **Where a statement ends in the source.** -/
theorem exists_of_firstStatement? {p : Position} {s : List Char} {first others : List Glyph}
    (h : firstStatement? (glyphsFrom .code p s) = some (first, others)) :
    ∃ u rest, s = u ++ ';' :: rest ∧ first = glyphsFrom .code p (u ++ [';']) ∧
      stopAfter first = (p.after (u ++ [';'])).offset ∧
      others = glyphsFrom .code (p.after (u ++ [';'])) rest ∧
      ∀ t, ReadsInTwo p (u ++ [';']) t := by
  have hlegible := legible_glyphsFrom .code p s .start rfl
  obtain ⟨w, ⟨c, quoted, q⟩, rfl, hgs, hsemicolon, -⟩ := deeper_of_firstStatement? hlegible h
  obtain ⟨rfl, rfl⟩ : quoted = false ∧ c = ';' := by simpa [Glyph.isCode] using hsemicolon
  obtain ⟨u, rest, rfl, hplace, hreads⟩ := readsAt_of_glyphsFrom_eq (n := .start) rfl hgs rfl
  dsimp only at hplace hreads hgs
  rw [hgs] at hlegible
  obtain ⟨hquote, -⟩ := hlegible.right.quote_eq_none rfl
  have hcode : surround (Nesting.start.after (Glyph.text w)) = .code := by
    rw [surround, hquote]
  -- the semicolon is read by itself, whatever follows it
  have hread : ∀ t, glyphsFrom .code p (u ++ ';' :: t) =
      w ++ ⟨';', false, q⟩ :: glyphsFrom .code (q.next ';') t := by
    intro t
    rw [hreads, hcode, glyphsFrom_code (by simp) (by simp)]
    rfl
  have hnext : p.after (u ++ [';']) = q.next ';' := by
    rw [Position.after_append, hplace]
    rfl
  have hself : glyphsFrom .code p (u ++ [';']) = w ++ [⟨';', false, q⟩] := by
    rw [hread, glyphsFrom]
  refine ⟨u, rest, rfl, hself.symm, ?_, ?_, fun t => ⟨?_, ?_, ?_⟩⟩
  · rw [stopAfter, List.getLast?_concat, hnext]
    rfl
  · rw [hread, List.append_cancel_left_eq, List.cons.injEq] at hgs
    rw [hnext, hgs.2]
  · rw [← List.append_cons, hread, hself, hnext, List.append_cons]
  · rw [hself, Glyph.text_append, Nesting.after_append]
    exact (Nesting.quote_step_of_none hquote ';').trans (if_neg Bool.false_ne_true)
  · rw [hself, Glyph.text_append]
    intro quote hlast
    obtain rfl : ';' = quote := Option.some.inj (List.getLast?_concat.symm.trans hlast)
    exact fun _ => rfl

theorem head?_trimEnd {c : Char} (hc : isBlank c = false) (s : List Char) :
    (trimEnd (c :: s)).head? = some c := by
  obtain ⟨blanks, htrim, hblanks⟩ := exists_trimEnd_append (c :: s)
  cases h : trimEnd (c :: s) with
  | nil =>
    rw [h, List.nil_append] at htrim
    have hblank := hblanks c (htrim ▸ List.mem_cons_self)
    rw [hc] at hblank
    cases hblank
  | cons d rest =>
    rw [h, List.cons_append] at htrim
    rw [(List.cons.inj htrim).1]
    rfl

/-- In the open, a glyph that is no gap is no blank. -/
theorem Legible.isBlank_eq_false {n : Nesting} {g : Glyph} {rest : List Glyph}
    (h : Legible n (g :: rest)) (hn : n.quote = none) (hg : g.isGap = false) :
    isBlank g.char = false := by
  obtain ⟨hmark, hclean, -⟩ := h
  refine eq_false_of_ne_true fun hblank => ?_
  cases hquoted : g.quoted with
  | true =>
    rw [hquoted, isNone_depthAt?, hn, isQuote_of_isBlank hblank] at hmark
    cases hmark
  | false =>
    have hspace := hclean hquoted
    rw [isCleanAt, if_pos hblank] at hspace
    rw [Glyph.isGap, hquoted, hspace] at hg
    cases hg

/-- What stands last is kept, if it is no space. -/
theorem getLast?_text_collapseFrom {c : Char} (hc : c ≠ ' ') {gs : List Glyph}
    (h : (Glyph.text gs).getLast? = some c) (afterGap : Bool) :
    (Glyph.text (collapseFrom afterGap gs)).getLast? = some c := by
  obtain ⟨front, g, rfl⟩ := (List.eq_nil_or_concat gs).resolve_left (by rintro rfl; cases h)
  rw [List.concat_eq_append, Glyph.text_append] at h
  obtain rfl : g.char = c := Option.some.inj (List.getLast?_concat.symm.trans h)
  have hgap : g.isGap = false := by
    rw [Glyph.isGap, beq_false_of_ne hc, Bool.and_false]
  rw [List.concat_eq_append, collapseFrom_concat hgap, Glyph.text_append]
  exact List.getLast?_concat

/-- A declaration begins with a word character or with a quote. -/
theorem isWordStart_of_declarationStart? {c : Char} {s : List Char} {kind : Kind}
    (h : declarationStart? (words (c :: s)) = some (0, kind)) : isWordChar c = true ∨ c = '"' := by
  obtain ⟨a, b, word, rest, hparts, ha, -, hreads, -⟩ := exists_of_declarationStart? h
  obtain rfl := List.eq_nil_of_length_eq_zero ha
  obtain ⟨d, tail, rfl, hd⟩ := hreads.exists_head
  obtain ⟨rfl, -⟩ := List.cons.inj hparts
  exact hd

/-- **What is read up to the beginning of a word**, whatever follows that, is read by itself. -/
theorem glyphsFrom_eq_of_forall {c : Char} (hc : isWordChar c = true ∨ c = '"') {p : Position}
    {before : List Char} {gs : List Glyph} (h : ∀ t, glyphsFrom .code p (before ++ c :: t) =
      gs ++ glyphsFrom .code (p.after before) (c :: t)) : glyphsFrom .code p before = gs := by
  have hother : ∀ {d : Char}, isWordChar d = false → d ≠ '"' → c ≠ d := by
    rintro d hd hquote rfl
    rcases hc with hc | hc
    · rw [hd] at hc
      cases hc
    · exact hquote hc
  have hdash : c ≠ '-' := hother rfl (by decide)
  have hslash : c ≠ '/' := hother rfl (by decide)
  have hstar : c ≠ '*' := hother rfl (by decide)
  have hline : c ≠ '\n' := hother rfl (by decide)
  -- the word neither opens nor closes a comment with what comes before
  have hsplit : ∀ t, glyphsFrom .code p before ++
      glyphsFrom (surroundAfter .code before) (p.after before) (c :: t) =
        gs ++ glyphsFrom .code (p.after before) (c :: t) := by
    intro t
    rw [← h, glyphsFrom_append_of_meetApart]
    · intro g _
      exact ⟨fun hg => hdash (Option.some.inj hg.2), fun hg => hstar (Option.some.inj hg.2)⟩
    · exact fun _ hhead => hslash (Option.some.inj hhead)
  have hcode : ∀ q t, glyphsFrom .code q (c :: t) =
      if isQuote c then ⟨c, true, q⟩ :: glyphsFrom (.quoted c) (q.next c) t
      else if isBlank c then .gap q :: glyphsFrom .code (q.next c) t
      else ⟨c, false, q⟩ :: glyphsFrom .code (q.next c) t :=
    fun q t => glyphsFrom_code (fun hg => hdash hg.1) (fun hg => hslash hg.1)
  -- in a comment nothing would come of the word, however long it is
  have hcomment : ∀ around, glyphsFrom around (p.after before) [c] = [] →
      glyphsFrom around (p.after before) [c, c] = [] → surroundAfter .code before ≠ around := by
    rintro around hone htwo rfl
    have hshort := hsplit []
    have hlong := hsplit [c]
    rw [hone] at hshort
    rw [htwo, hshort, List.append_cancel_left_eq, hcode, hcode] at hlong
    split_ifs at hlong <;> simp [glyphsFrom, *] at hlong
  cases haround : surroundAfter .code before with
  | code =>
    rw [haround] at hsplit
    exact List.append_cancel_right (hsplit [])
  | quoted quote =>
    rw [haround] at hsplit
    refine (List.append_inj' (hsplit []) ?_).1
    rw [hcode]
    split_ifs <;> simp [glyphsFrom]
  | lineComment =>
    refine absurd haround (hcomment _ ?_ ?_) <;> simp [glyphsFrom, hline]
  | blockComment =>
    refine absurd haround (hcomment _ ?_ ?_) <;> simp [glyphsFrom, hstar]

/-- The fragment of a statement whose declaration begins at the first of the glyphs. -/
def Statement.fragmentAt (statement : Statement) (kind : Kind) (g : Glyph) (back : List Glyph) :
    Fragment where
  kind := kind
  text := String.ofList (trimEnd (Glyph.text (g :: back)))
  span := ⟨g.place.offset, statement.stop, g.place.line, g.place.column⟩
  terminated := statement.terminated

/-- **The glyph that a declaration begins with** stands in the open and is no gap, it does not go on
with a quoted section, and what follows it holds the same declaration. -/
theorem Statement.exists_of_fragment? {statement : Statement} {f : Fragment}
    (h : statement.fragment? = some f) :
    ∃ front g back kind, statement.glyphs = front ++ g :: back ∧
      (Nesting.start.after (Glyph.text front)).quote = none ∧ g.isGap = false ∧
      declarationStart? (words (Glyph.text (g :: back))) = some (0, kind) ∧
      (g.char = '"' → (Glyph.text front).getLast? ≠ some '"') ∧
      f = statement.fragmentAt kind g back := by
  obtain ⟨⟨i, kind⟩, hstart, h⟩ := Option.bind_eq_some_iff.mp h
  obtain ⟨g, hg, h⟩ := Option.bind_eq_some_iff.mp h
  cases h
  obtain ⟨a, b, word, rest, hparts, rfl, hquote, hreads, hb, hapart⟩ :=
    exists_of_declarationStart? hstart
  obtain ⟨c, tail, rfl, hc⟩ := hreads.exists_head
  obtain ⟨front, back, hglyphs, rfl, hback⟩ := List.map_eq_append_iff.mp hparts
  obtain ⟨g', back, rfl, rfl, rfl⟩ := List.map_eq_cons_iff.mp hback
  obtain rfl : g' = g := by
    rw [hglyphs, List.length_map, List.getElem?_append_right (Nat.le_refl _), Nat.sub_self] at hg
    exact Option.some.inj hg
  have hspace : g'.char ≠ ' ' := by
    rintro heq
    rw [heq] at hc
    rcases hc with hc | hc <;> cases hc
  have hgap : g'.isGap = false := by
    rw [Glyph.isGap, beq_false_of_ne hspace, Bool.and_false]
  have hdrop : statement.text.drop (front.map Glyph.char).length = Glyph.text (g' :: back) := by
    rw [hparts, List.drop_left]
    rfl
  refine ⟨front, g', back, kind, hglyphs, hquote, hgap, hb, fun hg => hapart (congrArg some hg), ?_⟩
  rw [hdrop]
  rfl

theorem Statement.fragment?_of_cons {statement : Statement} {g : Glyph} {back : List Glyph}
    {kind : Kind} (hglyphs : statement.glyphs = g :: back)
    (hstart : declarationStart? (words (Glyph.text (g :: back))) = some (0, kind)) :
    statement.fragment? = some (statement.fragmentAt kind g back) := by
  have htext : statement.text = Glyph.text (g :: back) := congrArg Glyph.text hglyphs
  unfold fragment?
  rw [htext, hstart, hglyphs]
  rfl

/-- **A declaration by itself.** The declaration of a text begins at one of its characters, and the
text from there on makes a statement that holds the same declaration. -/
theorem Statement.exists_of_fragment?_ofText {p : Position} {s : List Char} {terminated : Bool}
    {f : Fragment} (h : (ofText p s terminated).fragment? = some f) :
    ∃ before inside front c, s = before ++ inside ∧
      glyphsFrom .code p s = front ++ glyphsFrom .code (p.after before) inside ∧
      (ofText (p.after before) inside terminated).fragment? = some f ∧
      f.text.toList = trimEnd (Glyph.text (collapse (glyphsFrom .code (p.after before) inside))) ∧
      (⟨f.span.start, f.span.line, f.span.column⟩ : Position) = p.after before ∧
      inside.head? = some c ∧ f.text.toList.head? = some c ∧ ReadsInTwo p before inside := by
  have hlegible := legible_glyphsFrom .code p s .start rfl
  obtain ⟨first, g, last, kind, hglyphs, hquote, hgap, hstart, hapart, rfl⟩ :=
    exists_of_fragment? h
  obtain ⟨front, back, hparts, rfl, rfl⟩ := exists_of_collapseFrom_eq hgap hglyphs
  obtain ⟨before, behind, rfl, hplace, hreads⟩ :=
    readsAt_of_glyphsFrom_eq (n := .start) rfl hparts hgap
  rw [hparts] at hlegible
  have hnone : (Nesting.start.after (Glyph.text front)).quote = none := by
    rw [← hlegible.left.after_collapseFrom true]
    exact hquote
  have hcode : surround (Nesting.start.after (Glyph.text front)) = .code := by
    rw [surround, hnone]
  -- from there on, the glyphs are those of what is left of the text
  have hinside := hreads behind
  rw [hparts, hcode, hplace, List.append_cancel_left_eq] at hinside
  have hcollapse : collapse (glyphsFrom .code (p.after before) (g.char :: behind)) =
      g :: collapseFrom false back := by
    rw [← hinside, collapse, collapseFrom, hgap]
    rfl
  have hstop : (p.after (before ++ g.char :: behind)).offset =
      ((p.after before).after (g.char :: behind)).offset := by
    rw [Position.after_append]
  have hfront : glyphsFrom .code p before = front := by
    rw [hcode, hplace] at hreads
    exact glyphsFrom_eq_of_forall (isWordStart_of_declarationStart? hstart) hreads
  refine ⟨before, g.char :: behind, front, g.char, rfl, ?_, ?_, ?_, hplace, rfl, ?_, ?_, ?_, ?_⟩
  · rw [hparts, hinside]
  · rw [fragment?_of_cons hcollapse hstart, fragmentAt, fragmentAt, ofText, ofText, hstop]
  · rw [fragmentAt, String.toList_ofList, hcollapse]
  · rw [fragmentAt, String.toList_ofList]
    exact head?_trimEnd (hlegible.right.isBlank_eq_false hnone hgap) _
  · rw [hparts, hinside, hfront]
  · rw [hfront]
    exact hnone
  · rw [hfront]
    intro quote hlast hhead
    obtain rfl : g.char = quote := Option.some.inj hhead
    rcases isWordStart_of_declarationStart? hstart with hword | hquote
    · exact isQuote_of_isWordChar hword
    · rw [hquote] at hlast
      exact absurd (getLast?_text_collapseFrom (by decide) hlast true) (hapart hquote)

/-- The end of a fragment is the end of its statement. -/
theorem Statement.end_of_fragment? {statement : Statement} {f : Fragment}
    (h : statement.fragment? = some f) :
    f.span.stop = statement.stop ∧ f.terminated = statement.terminated := by
  obtain ⟨front, g, back, kind, -, -, -, -, -, rfl⟩ := exists_of_fragment? h
  exact ⟨rfl, rfl⟩

/-! ## Where a fragment stands -/

/-- **A fragment stands behind `before`**, in a text that begins at `p`: that is where its span
begins, and its span ends where `inside` ends. It begins with the first character of `inside`, it
ends with the last one if that is its semicolon, and `inside` holds nothing else if its parentheses
balance. -/
structure Fragment.StandsAt (f : Fragment) (p : Position) (before inside : List Char) : Prop where
  place : (⟨f.span.start, f.span.line, f.span.column⟩ : Position) = p.after before
  stop : f.span.stop = (p.after (before ++ inside)).offset
  head : ∃ c, inside.head? = some c ∧ f.text.toList.head? = some c
  last : f.terminated = true → inside.getLast? = some ';' ∧ f.text.toList.getLast? = some ';'
  alone : isBalanced f.text.toList = true →
    (scan (String.ofList inside)).map (Fragment.shift (p.after before)) = [f]

theorem Fragment.StandsAt.append {f : Fragment} {p : Position} {a before inside : List Char}
    (h : f.StandsAt (p.after a) before inside) : f.StandsAt p (a ++ before) inside where
  place := by rw [h.place, Position.after_append]
  stop := by rw [h.stop, ← Position.after_append, List.append_assoc]
  head := h.head
  last := h.last
  alone := by
    rw [Position.after_append]
    exact h.alone

/-- **The fragment of one statement.** -/
theorem exists_standsAt {p : Position} {s : List Char} {terminated : Bool} {f : Fragment}
    (h : (Statement.ofText p s terminated).fragment? = some f)
    (hends : Ends terminated (glyphsFrom .code p s))
    (hlast : terminated = true → s.getLast? = some ';' ∧
      stopAfter (glyphsFrom .code p s) = (p.after s).offset) :
    ∃ before inside, s = before ++ inside ∧ f.StandsAt p before inside := by
  obtain ⟨hstop, hterminated⟩ := Statement.end_of_fragment? h
  obtain ⟨before, inside, front, c, rfl, hglyphs, hf, htext, hplace, hhead, hheadText, -⟩ :=
    Statement.exists_of_fragment?_ofText h
  obtain ⟨tail, rfl⟩ := List.head?_eq_some_iff.mp hhead
  rw [hglyphs] at hends hlast
  obtain ⟨first, g, last, -, hcollapse, -⟩ := Statement.exists_of_fragment? hf
  have hne : collapse (glyphsFrom .code (p.after before) (c :: tail)) ≠ [] := by
    intro hnil
    have hnil' : first ++ g :: last = [] := hcollapse.symm.trans hnil
    simp at hnil'
  have hglyphsNe : glyphsFrom .code (p.after before) (c :: tail) ≠ [] := by
    intro hnil
    rw [hnil] at hne
    exact hne rfl
  refine ⟨before, c :: tail, rfl, hplace, hstop, ⟨c, hhead, hheadText⟩, fun ht => ?_, fun hb => ?_⟩
  · obtain rfl : terminated = true := hterminated.symm.trans ht
    obtain ⟨body, semicolon, hbody, hsemicolon⟩ := hends.exists_semicolon hglyphsNe
    have hgap : semicolon.isGap = false := by
      simp only [Glyph.isCode, Bool.and_eq_true, beq_iff_eq] at hsemicolon
      simp [Glyph.isGap, hsemicolon.2]
    have hchar : semicolon.char = ';' := by
      simp only [Glyph.isCode, Bool.and_eq_true, beq_iff_eq] at hsemicolon
      exact hsemicolon.2
    have hcollapse' : Glyph.text (collapse (glyphsFrom .code (p.after before) (c :: tail))) =
        Glyph.text (collapse body) ++ [';'] := by
      rw [hbody, collapse, collapseFrom_concat hgap, Glyph.text_append, Glyph.text_cons, hchar]
      rfl
    refine ⟨?_, ?_⟩
    · simpa using (hlast rfl).1
    · rw [htext, hcollapse', trimEnd_eq_self (by simp [isBlank])]
      exact List.getLast?_concat
  · have hlegible := legible_glyphsFrom .code (p.after before) (c :: tail) .start rfl
    rw [htext] at hb
    have hsize : terminated = true →
        stopAfter (glyphsFrom .code (p.after before) (c :: tail)) =
          (p.after before).offset + byteLength (c :: tail) := by
      intro ht
      rw [← Position.offset_after, ← Position.after_append, ← (hlast ht).2, stopAfter, stopAfter,
        List.getLast?_append_of_ne_nil _ hglyphsNe]
    have hstatements := hends.statementsOf_right (hlegible.depthAfter_eq_zero hb) hne hsize
    have hshift := filterMap_statementsOf_shift (p.after before) (String.ofList (c :: tail))
    rw [String.toList_ofList, hstatements, ← Position.offset_after] at hshift
    rw [← hshift]
    exact List.filterMap_cons_some hf

/-! ## Scanning from a place on -/

/-- The fragments of a text that begins at `p`. -/
def scanFrom (p : Position) (s : List Char) : List Fragment :=
  (statementsOf (p.after s).offset (glyphsFrom .code p s)).filterMap Statement.fragment?

theorem scan_eq_scanFrom (source : String) : scan source = scanFrom .start source.toList := by
  have hsize : (Position.start.after source.toList).offset = byteLength source.toList := by
    rw [Position.offset_after]
    exact Nat.zero_add _
  rw [scan, statements, scanFrom, hsize, glyphs]

/-- Where no semicolon ends a statement, the text makes one statement. -/
theorem scanFrom_eq_last {p : Position} {s : List Char}
    (h : firstStatement? (glyphsFrom .code p s) = none) :
    scanFrom p s = (Statement.ofText p s false).fragment?.toList := by
  have hlast : ∀ gs, collapse (glyphsFrom .code p s) = gs →
      Statement.ofText p s false = ⟨gs, (p.after s).offset, false⟩ := by
    rintro gs rfl
    rfl
  rw [scanFrom, statementsOf_eq_last h]
  cases hcollapse : collapse (glyphsFrom .code p s) with
  | nil =>
    rw [hlast _ hcollapse, Statement.fragment?, Statement.text, Glyph.text, List.map_nil, words,
      wordsFrom_nil]
    rfl
  | cons g last =>
    rw [hlast _ hcollapse]
    dsimp only
    rw [List.filterMap_cons]
    cases (⟨g :: last, (p.after s).offset, false⟩ : Statement).fragment? <;> rfl

/-- Where a semicolon ends a statement, what follows it is read from there on. -/
theorem exists_scanFrom_eq {p : Position} {s : List Char} {cut : List Glyph × List Glyph}
    (h : firstStatement? (glyphsFrom .code p s) = some cut) :
    ∃ u rest, s = u ++ rest ∧ u.getLast? = some ';' ∧ Ends true (glyphsFrom .code p u) ∧
      stopAfter (glyphsFrom .code p u) = (p.after u).offset ∧
      scanFrom p s = (Statement.ofText p u true).fragment?.toList ++ scanFrom (p.after u) rest ∧
      ∀ t, ReadsInTwo p u t := by
  obtain ⟨first, others⟩ := cut
  obtain ⟨u, rest, rfl, rfl, hstop, rfl, htwo⟩ := exists_of_firstStatement? h
  have hparts : u ++ ';' :: rest = u ++ [';'] ++ rest := List.append_cons u ';' rest
  have hstatement : (⟨collapse (glyphsFrom .code p (u ++ [';'])),
      stopAfter (glyphsFrom .code p (u ++ [';'])), true⟩ : Statement) =
        Statement.ofText p (u ++ [';']) true := by
    rw [hstop, Statement.ofText]
  refine ⟨u ++ [';'], rest, hparts, List.getLast?_concat, ⟨_, _, h⟩, hstop, ?_, htwo⟩
  have hsize : (p.after (u ++ ';' :: rest)).offset =
      ((p.after (u ++ [';'])).after rest).offset := by
    rw [hparts, Position.after_append]
  rw [scanFrom, statementsOf_eq_cons h, hstatement, List.filterMap_cons, hsize]
  cases (Statement.ofText p (u ++ [';']) true).fragment? <;> rfl

/-- **Where the fragments of a text stand**, one behind the other. -/
theorem standsAt_of_scanFrom (p : Position) (s : List Char) :
    (∀ f ∈ scanFrom p s, ∃ before inside behind, s = before ++ (inside ++ behind) ∧
      f.StandsAt p before inside) ∧
    (scanFrom p s).Pairwise fun f g => f.span.stop ≤ g.span.start := by
  induction hlength : s.length using Nat.strongRecOn generalizing p s with
  | ind length ih =>
    cases hfirst : firstStatement? (glyphsFrom .code p s) with
    | none =>
      rw [scanFrom_eq_last hfirst]
      refine ⟨fun f hf => ?_, ?_⟩
      · obtain ⟨before, inside, rfl, hstands⟩ :=
          exists_standsAt (Option.mem_toList.mp hf) hfirst fun h => by cases h
        exact ⟨before, inside, [], by rw [List.append_nil], hstands⟩
      · cases (Statement.ofText p s false).fragment? <;> simp
    | some cut =>
      obtain ⟨u, rest, rfl, hlast, hends, hstop, hscan, -⟩ := exists_scanFrom_eq hfirst
      have hshorter : rest.length < length := by
        have hpos : 0 < u.length := by
          refine List.length_pos_iff.mpr ?_
          rintro rfl
          cases hlast
        rw [← hlength, List.length_append]
        omega
      obtain ⟨hrest, hordered⟩ := ih _ hshorter (p.after u) rest rfl
      have hfirstStands : ∀ f ∈ (Statement.ofText p u true).fragment?.toList,
          ∃ before inside, u = before ++ inside ∧ f.StandsAt p before inside :=
        fun f hf => exists_standsAt (Option.mem_toList.mp hf) hends fun _ => ⟨hlast, hstop⟩
      rw [hscan]
      refine ⟨fun f hf => ?_, List.pairwise_append.mpr ⟨?_, hordered, fun f hf g hg => ?_⟩⟩
      · rcases List.mem_append.mp hf with hf | hf
        · obtain ⟨before, inside, rfl, hstands⟩ := hfirstStands f hf
          exact ⟨before, inside, rest, List.append_assoc _ _ _, hstands⟩
        · obtain ⟨before, inside, behind, rfl, hstands⟩ := hrest f hf
          exact ⟨u ++ before, inside, behind, (List.append_assoc _ _ _).symm, hstands.append⟩
      · cases (Statement.ofText p u true).fragment? <;> simp
      · -- the one statement ends before the other begins
        obtain ⟨before, inside, rfl, hstands⟩ := hfirstStands f hf
        obtain ⟨before', inside', behind', -, hstands'⟩ := hrest g hg
        have hplace := congrArg Position.offset hstands'.place
        rw [Position.offset_after, ← hstands.stop] at hplace
        dsimp only at hplace
        omega

/-! ## Spans -/

/-- The span covers `inside`, which stands behind `before`. A column counts the characters behind
the last line break. -/
structure Span.Covers (span : Span) (before inside : List Char) : Prop where
  start : span.start = byteLength before
  stop : span.stop = byteLength (before ++ inside)
  line : span.line = 1 + before.count '\n'
  column : span.column = 1 + (before.reverse.takeWhile (· ≠ '\n')).length

theorem Fragment.StandsAt.covers {f : Fragment} {before inside : List Char}
    (h : f.StandsAt .start before inside) : f.span.Covers before inside where
  start := by
    have hplace := congrArg Position.offset h.place
    rw [Position.offset_after] at hplace
    exact hplace.trans (Nat.zero_add _)
  stop := by
    rw [h.stop, Position.offset_after]
    exact Nat.zero_add _
  line := by
    have hplace := congrArg Position.line h.place
    rw [Position.line_after] at hplace
    exact hplace
  column := by
    have hplace := congrArg Position.column h.place
    rw [Position.column_after_start] at hplace
    exact hplace

theorem dropBytes_append (a b : List Char) : Span.dropBytes (byteLength a) (a ++ b) = b := by
  induction a with
  | nil =>
    cases b <;> rfl
  | cons c a ih =>
    have hpos := c.utf8Size_pos
    have hne : ¬ byteLength (c :: a) = 0 := by
      rw [byteLength_cons]
      omega
    rw [List.cons_append, Span.dropBytes, if_neg hne, byteLength_cons, Nat.add_sub_cancel_left, ih]

theorem takeBytes_append (a b : List Char) : Span.takeBytes (byteLength a) (a ++ b) = a := by
  induction a with
  | nil =>
    cases b <;> rfl
  | cons c a ih =>
    have hpos := c.utf8Size_pos
    have hne : ¬ byteLength (c :: a) = 0 := by
      rw [byteLength_cons]
      omega
    rw [List.cons_append, Span.takeBytes, if_neg hne, byteLength_cons, Nat.add_sub_cancel_left, ih]

/-- What a span covers is its text. -/
theorem Span.Covers.text_eq {span : Span} {source : String} {before inside behind : List Char}
    (h : span.Covers before inside) (hparts : source.toList = before ++ (inside ++ behind)) :
    span.text source = String.ofList inside := by
  have hlength : span.length = byteLength inside := by
    rw [Span.length, h.start, h.stop, byteLength_append, Nat.add_sub_cancel_left]
  rw [Span.text, hlength, h.start, hparts, dropBytes_append, takeBytes_append]

/-- **A fragment that is cut out** of its source begins at the beginning. -/
theorem Fragment.StandsAt.scan_eq {f : Fragment} {before inside : List Char}
    (h : f.StandsAt .start before inside) (hbalanced : isBalanced f.text.toList = true) :
    scan (String.ofList inside) = [{ f with span := ⟨0, f.span.length, 1, 1⟩ }] := by
  obtain ⟨g, hscan, rfl⟩ := List.map_eq_singleton_iff.mp (h.alone hbalanced)
  have hg : g ∈ scanFrom .start inside := by
    rw [← String.toList_ofList (l := inside), ← scan_eq_scanFrom, hscan]
    exact List.mem_singleton_self g
  obtain ⟨before', inside', behind', -, hstands⟩ := (standsAt_of_scanFrom .start inside).1 g hg
  have hplace := congrArg Position.offset h.place
  have hstart : g.span.start = 0 := by
    have hshift : ((Position.start.after before).offset + g.span.start : Nat) =
        (Position.start.after before).offset := hplace
    omega
  -- nothing stands in front of it
  obtain rfl : before' = [] := by
    cases before' with
    | nil => rfl
    | cons c rest =>
      have hpos := c.utf8Size_pos
      have hlength := hstands.covers.start
      rw [byteLength_cons] at hlength
      omega
  have hlength : (g.shift (Position.start.after before)).span.length = g.span.stop := by
    have hdiff : (g.shift (Position.start.after before)).span.length =
        (Position.start.after before).offset + g.span.stop -
          ((Position.start.after before).offset + g.span.start) := rfl
    rw [hdiff, hstart]
    omega
  have hspan : g.span = ⟨0, g.span.stop, 1, 1⟩ := by
    have hline := hstands.covers.line
    have hcolumn := hstands.covers.column
    obtain ⟨kind, text, ⟨start, stop, line, column⟩, terminated⟩ := g
    dsimp only at hstart hline hcolumn
    rw [hstart, hline, hcolumn]
    rfl
  rw [hscan, hlength, ← hspan]
  rfl

/-- **Spans point at declarations.** Each fragment of a source has a span that lies inside the
source and does not cut a character. The span begins with the first character of the fragment, on
the line and the column where that stands, and ends with its semicolon, if it has one. No two spans
meet, and they come in the order of the source. If the parentheses of a fragment balance, what its span
covers is the same fragment when it is scanned by itself. -/
theorem scan_spans (source : String) :
    (∀ f ∈ scan source,
      f.span.start < f.span.stop ∧ f.span.stop ≤ byteLength source.toList ∧
      (∃ before inside behind, source.toList = before ++ (inside ++ behind) ∧
        f.span.Covers before inside ∧
        (∃ c, inside.head? = some c ∧ f.text.toList.head? = some c) ∧
        (f.terminated = true →
          inside.getLast? = some ';' ∧ f.text.toList.getLast? = some ';')) ∧
      (isBalanced f.text.toList = true →
        scan (f.span.text source) = [{ f with span := ⟨0, f.span.length, 1, 1⟩ }])) ∧
    (scan source).Pairwise fun f g =>
      f.span.start < g.span.start ∧ f.span.stop ≤ g.span.start := by
  obtain ⟨hstands, hordered⟩ := standsAt_of_scanFrom .start source.toList
  rw [← scan_eq_scanFrom] at hstands hordered
  have hspan : ∀ f ∈ scan source, f.span.start < f.span.stop ∧
      f.span.stop ≤ byteLength source.toList ∧
      ∃ before inside behind, source.toList = before ++ (inside ++ behind) ∧
        f.StandsAt .start before inside := by
    intro f hf
    obtain ⟨before, inside, behind, hparts, hf⟩ := hstands f hf
    obtain ⟨c, hhead, -⟩ := hf.head
    obtain ⟨tail, rfl⟩ := List.head?_eq_some_iff.mp hhead
    have hpos := c.utf8Size_pos
    refine ⟨?_, ?_, before, c :: tail, behind, hparts, hf⟩
    · rw [hf.covers.start, hf.covers.stop, byteLength_append, byteLength_cons]
      omega
    · rw [hf.covers.stop, hparts, ← List.append_assoc, byteLength_append _ behind]
      exact Nat.le_add_right _ _
  refine ⟨fun f hf => ?_, hordered.imp_of_mem fun {f g} hf hg hbefore => ?_⟩
  · obtain ⟨hlt, hle, before, inside, behind, hparts, hf⟩ := hspan f hf
    refine ⟨hlt, hle, ⟨before, inside, behind, hparts, hf.covers, hf.head, hf.last⟩, fun hb => ?_⟩
    rw [hf.covers.text_eq hparts, hf.scan_eq hb]
  · exact ⟨Nat.lt_of_lt_of_le (hspan f hf).1 hbefore, hbefore⟩

/-- Behind characters of two bytes each: a procedure with a parenthesis that is never closed, a
constant with a comment that holds a semicolon, and a function that the source breaks off. -/
example :
    let source := "package P is -- ü\n  /* é */ procedure \"Ö\"(x number;\n\tπ constant -- ;\n" ++
      "  number := 'ß;'; function F"
    (scan source).map (fun f => (f.span, f.span.text source)) =
      [(⟨30, 54, 2, 11⟩, "procedure \"Ö\"(x number;"),
        (⟨56, 91, 3, 2⟩, "π constant -- ;\n  number := 'ß;';"),
        (⟨92, 102, 4, 19⟩, "function F")] := by
  decide +kernel

end StoredRoutine.Source
