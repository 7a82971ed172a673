import StoredRoutine.Package
import StoredRoutine.Proofs.Source.Shifting

/-!
# Sources that are put together

A text can be cut off from what follows it: `Parts a b` says that wherever `a` and `b` stand one
behind the other, the statements of both together are those of `a` and then those of `b`. Which
texts do is the subject of other modules. Here is what comes of it: the fragments
(`Parts.scan_append`), the members and the errors (`Report.members_append`,
`Report.errors_append`) of both together are those of `a` and then those of `b`, which stands where
`a` ends.

What surrounds the end of a text is `surroundAfter`. A text that ends in the open can be read by
itself, unless what follows makes a comment of its last character (`glyphsFrom_append_of_code`).
-/

namespace StoredRoutine

namespace Source

/-! ## The end of a text -/

/-- What surrounds the end of a text. -/
def surroundAfter : Surround → List Char → Surround
  | around, [] => around
  | .code, '-' :: '-' :: rest => surroundAfter .lineComment rest
  | .code, '/' :: '*' :: rest => surroundAfter .blockComment rest
  | .code, c :: rest =>
    if Text.isQuote c then surroundAfter (.quoted c) rest else surroundAfter .code rest
  | .quoted quote, c :: rest => surroundAfter (if c = quote then .code else .quoted quote) rest
  | .lineComment, c :: rest =>
    if c = '\n' then surroundAfter .code rest else surroundAfter .lineComment rest
  | .blockComment, '*' :: '/' :: rest => surroundAfter .code rest
  | .blockComment, _ :: rest => surroundAfter .blockComment rest

/-- No comment begins where the glyphs of a text meet the text that follows. -/
def MeetApart (gs : List Glyph) (t : List Char) : Prop :=
  ∀ g ∈ gs.getLast?, ¬ (g.isCode '-' = true ∧ t.head? = some '-') ∧
    ¬ (g.isCode '/' = true ∧ t.head? = some '*')

theorem MeetApart.of_cons {g : Glyph} {gs : List Glyph} {t : List Char}
    (h : MeetApart (g :: gs) t) : MeetApart gs t := by
  intro last hlast
  refine h last ?_
  rw [List.getLast?_cons, Option.mem_def.mp hlast]
  rfl

/-- What does not open a comment by itself does not open one with what follows, unless it is the
last character and the two meet in the opening of one. -/
theorem not_opens_append {c d e : Char} {rest t : List Char}
    (h : ¬ (c = d ∧ rest.head? = some e)) (hlast : rest = [] → ¬ (c = d ∧ t.head? = some e)) :
    ¬ (c = d ∧ (rest ++ t).head? = some e) := by
  cases rest with
  | nil => exact hlast rfl
  | cons f rest => exact h

/-- **A text is read up to what follows it**, and on from there in what surrounds its end, unless
the two meet in the opening or in the closing of a comment. -/
theorem glyphsFrom_append_of_meetApart {around : Surround} {p : Position} {s t : List Char}
    (hend : MeetApart (glyphsFrom around p s) t)
    (hclosing : surroundAfter around s = .blockComment → t.head? ≠ some '/') :
    glyphsFrom around p (s ++ t) =
      glyphsFrom around p s ++ glyphsFrom (surroundAfter around s) (p.after s) t := by
  fun_induction glyphsFrom around p s with
  | case1 around p => rfl
  | case2 p rest ih =>
    have hrest := ih hend.of_cons hclosing
    simp only [List.cons_append, glyphsFrom, hrest]
    rfl
  | case3 p rest ih =>
    have hrest := ih hend.of_cons hclosing
    simp only [List.cons_append, glyphsFrom, hrest]
    rfl
  | case4 p c rest hdash hslash hquote ih =>
    have hopens : ∀ d, Text.isQuote d = false → c ≠ d := by
      rintro d hd rfl
      rw [hquote] at hd
      cases hd
    have hafter : surroundAfter .code (c :: rest) = surroundAfter (.quoted c) rest := by
      rw [surroundAfter, if_pos hquote]
      · exact hdash
      · exact hslash
    rw [hafter] at hclosing ⊢
    rw [List.cons_append, glyphsFrom_code (fun h => hopens '-' rfl h.1)
      (fun h => hopens '/' rfl h.1), if_pos hquote, ih hend.of_cons hclosing]
    rfl
  | case5 p c rest hdash hslash hquote hblank ih =>
    have hafter : surroundAfter .code (c :: rest) = surroundAfter .code rest := by
      rw [surroundAfter, if_neg hquote]
      · exact hdash
      · exact hslash
    rw [hafter] at hclosing ⊢
    rw [List.cons_append, glyphsFrom_blank hblank, ih hend.of_cons hclosing]
    rfl
  | case6 p c rest hdash hslash hquote hblank ih =>
    -- only the last character could open a comment with what follows
    have hlast : rest = [] → ¬ (c = '-' ∧ t.head? = some '-') ∧ ¬ (c = '/' ∧ t.head? = some '*') := by
      rintro rfl
      simpa [Glyph.isCode] using hend ⟨c, false, p⟩ rfl
    have hdash' : ¬ (c = '-' ∧ (rest ++ t).head? = some '-') := by
      refine not_opens_append ?_ fun h => (hlast h).1
      rintro ⟨hc, hnext⟩
      obtain ⟨others, hothers⟩ := List.head?_eq_some_iff.mp hnext
      exact hdash others hc hothers
    have hslash' : ¬ (c = '/' ∧ (rest ++ t).head? = some '*') := by
      refine not_opens_append ?_ fun h => (hlast h).2
      rintro ⟨hc, hnext⟩
      obtain ⟨others, hothers⟩ := List.head?_eq_some_iff.mp hnext
      exact hslash others hc hothers
    have hafter : surroundAfter .code (c :: rest) = surroundAfter .code rest := by
      rw [surroundAfter, if_neg hquote]
      · exact hdash
      · exact hslash
    rw [hafter] at hclosing ⊢
    rw [List.cons_append, glyphsFrom_code hdash' hslash', if_neg hquote, if_neg hblank,
      ih hend.of_cons hclosing]
    rfl
  | case7 quote p c rest ih =>
    rw [surroundAfter] at hclosing ⊢
    rw [List.cons_append, glyphsFrom, ih hend.of_cons hclosing]
    rfl
  | case8 p rest ih =>
    have hrest := ih hend.of_cons hclosing
    rw [List.cons_append, glyphsFrom, if_pos rfl, hrest]
    rfl
  | case9 p c rest hc ih =>
    rw [surroundAfter, if_neg hc] at hclosing ⊢
    rw [List.cons_append, glyphsFrom, if_neg hc, ih hend hclosing]
    rfl
  | case10 p rest ih =>
    have hrest := ih hend hclosing
    simp only [List.cons_append, glyphsFrom, hrest]
    rfl
  | case11 p c rest hclose ih =>
    have hafter : surroundAfter .blockComment (c :: rest) = surroundAfter .blockComment rest := by
      rw [surroundAfter]
      exact hclose
    rw [hafter] at hclosing ⊢
    -- half a closing at the end of the text is not completed by what follows
    have hclose' : ∀ others, c = '*' → rest ++ t = '/' :: others → False := by
      intro others hc hothers
      cases rest with
      | nil =>
        refine hclosing rfl ?_
        rw [List.nil_append] at hothers
        rw [hothers]
        rfl
      | cons d rest =>
        obtain ⟨rfl, -⟩ := List.cons.inj hothers
        exact hclose rest hc rfl
    rw [List.cons_append, glyphsFrom, ih hend hclosing]
    · rfl
    · exact hclose'

/-- **A text is read by itself**, if it ends in the open and no comment begins where it ends. -/
theorem glyphsFrom_append_of_code {around : Surround} {p : Position} {s : List Char}
    {t : List Char} (hcode : surroundAfter around s = .code)
    (hend : MeetApart (glyphsFrom around p s) t) :
    glyphsFrom around p (s ++ t) =
      glyphsFrom around p s ++ glyphsFrom .code (p.after s) t := by
  have hclosing : surroundAfter around s = .blockComment → t.head? ≠ some '/' := by
    intro hcomment
    rw [hcode] at hcomment
    cases hcomment
  rw [glyphsFrom_append_of_meetApart hend hclosing, hcode]

/-! ## Parts of a source -/

/-- The statements of a source that goes on with `b` behind `a`, wherever it stands, are those of
`a` and then those of `b`. The end of the source does not matter to the statements of `a`. -/
def Parts (a b : List Char) : Prop :=
  ∀ (p : Position) (n size : Nat), statementsOf size (glyphsFrom .code p (a ++ b)) =
    statementsOf n (glyphsFrom .code p a) ++ statementsOf size (glyphsFrom .code (p.after a) b)

theorem shift_scan_append {a b : String} (h : Parts a.toList b.toList) (p : Position) :
    (scan (a ++ b)).map (Fragment.shift p) = (scan a).map (Fragment.shift p) ++
      (scan b).map (Fragment.shift (p.after a.toList)) := by
  have hsize : p.offset + byteLength (a ++ b).toList =
      (p.after a.toList).offset + byteLength b.toList := by
    rw [String.toList_append, byteLength_append, Position.offset_after, Nat.add_assoc]
  rw [← filterMap_statementsOf_shift, ← filterMap_statementsOf_shift,
    ← filterMap_statementsOf_shift, hsize, String.toList_append,
    h p (p.offset + byteLength a.toList), List.filterMap_append]

/-- A source by itself begins at the beginning. -/
theorem shift_scan_start (s : String) : (scan s).map (Fragment.shift .start) = scan s := by
  rw [← filterMap_statementsOf_shift, scan, statements, glyphs]
  have hsize : Position.start.offset + byteLength s.toList = byteLength s.toList := Nat.zero_add _
  rw [hsize]

/-- **Scanning two texts** that part. -/
theorem Parts.scan_append {a b : String} (h : Parts a.toList b.toList) :
    scan (a ++ b) = scan a ++ (scan b).map (Fragment.shift (Position.start.after a.toList)) := by
  have hshift := shift_scan_append h .start
  rwa [shift_scan_start, shift_scan_start] at hshift

/-- Each of the pieces parts from all that comes behind it, up to the last text. -/
def PartsInTurn : List String → String → Prop
  | [], _ => True
  | s :: rest, last =>
    Parts s.toList (String.join rest ++ last).toList ∧ PartsInTurn rest last

/-- The fragments of texts that stand one behind the other, the first at `p`. -/
def located : Position → List String → List Fragment
  | _, [] => []
  | p, s :: rest => (scan s).map (Fragment.shift p) ++ located (p.after s.toList) rest

theorem join_cons_append (s : String) (rest : List String) (last : String) :
    String.join (s :: rest) ++ last = s ++ (String.join rest ++ last) := by
  rw [String.join_cons, String.append_assoc]

/-- **Scanning many texts**, each of which parts from what follows. -/
theorem PartsInTurn.scan_join {pieces : List String} {last : String}
    (h : PartsInTurn pieces last) :
    scan (String.join pieces ++ last) = located .start (pieces ++ [last]) := by
  have hshift : ∀ p : Position, (scan (String.join pieces ++ last)).map (Fragment.shift p) =
      located p (pieces ++ [last]) := by
    induction pieces with
    | nil =>
      intro p
      simp [located]
    | cons s rest ih =>
      intro p
      obtain ⟨hs, hrest⟩ := h
      rw [join_cons_append, shift_scan_append hs, ih hrest]
      rfl
  rw [← hshift, shift_scan_start]

end Source

/-! ## Reports -/

/-- The place of a text, in a source in which the text begins at `origin`. -/
def Context.shift (origin : Source.Position) (c : Context) : Context :=
  match c.line, c.column with
  | some line, some column =>
    let p := origin.shift ⟨0, line, column⟩
    { c with line := some p.line, column := some p.column }
  | _, _ => c

/-- The error of a text, in a source in which the text begins at `origin`. -/
def Error.shift (origin : Source.Position) (e : Error) : Error :=
  { e with context := e.context.map (Context.shift origin) }

namespace Report

open Source

/-- What is built of a fragment does not depend on where it stands, and where an error is said to
be does. -/
theorem outcome_shift (types : TypeTable) (name : String) (origin : Position) (f : Fragment) :
    (memberOf types (f.shift origin)).mapError (·.within (contextOf name (f.shift origin))) =
      ((memberOf types f).mapError (·.within (contextOf name f))).mapError
        (Error.shift origin) := by
  have hmember : memberOf types (f.shift origin) = memberOf types f := rfl
  rw [hmember]
  cases memberOf types f <;> rfl

theorem outcomes_append {a b : String} (h : Parts a.toList b.toList) (types : TypeTable)
    (name : String) :
    outcomes types name (a ++ b) = outcomes types name a ++
      (outcomes types name b).map
        (Except.mapError (Error.shift (Position.start.after a.toList))) := by
  simp only [outcomes, h.scan_append, List.map_append, List.map_map]
  congr 1
  refine List.map_congr_left fun f _ => ?_
  exact outcome_shift types name _ f

/-- **The members of two texts** that part are the members of both. -/
theorem members_append {a b : String} (h : Parts a.toList b.toList) (types : TypeTable)
    (name : String) :
    (ofSource types name (a ++ b)).package.members =
      (ofSource types name a).package.members ++ (ofSource types name b).package.members := by
  simp only [ofSource, outcomes_append h, List.filterMap_append, List.filterMap_map]
  congr 2
  funext outcome
  cases outcome <;> rfl

/-- **The errors of two texts** that part are the errors of both. -/
theorem errors_append {a b : String} (h : Parts a.toList b.toList) (types : TypeTable)
    (name : String) :
    (ofSource types name (a ++ b)).errors = (ofSource types name a).errors ++
      (ofSource types name b).errors.map (Error.shift (Position.start.after a.toList)) := by
  simp only [ofSource, outcomes_append h, List.filterMap_append, List.filterMap_map,
    List.map_filterMap]
  congr 2
  funext outcome
  cases outcome <;> rfl

/-- What went wrong does not depend on where it is said to be. -/
theorem causes_append {a b : String} (h : Parts a.toList b.toList) (types : TypeTable)
    (name : String) :
    (ofSource types name (a ++ b)).errors.map (·.cause) =
      (ofSource types name a).errors.map (·.cause) ++
        (ofSource types name b).errors.map (·.cause) := by
  rw [errors_append h, List.map_append, List.map_map]
  rfl

theorem members_join {pieces : List String} {last : String} (h : PartsInTurn pieces last)
    (types : TypeTable) (name : String) :
    (ofSource types name (String.join pieces ++ last)).package.members =
      (pieces ++ [last]).flatMap fun s => (ofSource types name s).package.members := by
  induction pieces with
  | nil => simp
  | cons s rest ih =>
    obtain ⟨hs, hrest⟩ := h
    rw [join_cons_append, members_append hs, ih hrest]
    rfl

theorem causes_join {pieces : List String} {last : String} (h : PartsInTurn pieces last)
    (types : TypeTable) (name : String) :
    (ofSource types name (String.join pieces ++ last)).errors.map (·.cause) =
      (pieces ++ [last]).flatMap fun s => (ofSource types name s).errors.map (·.cause) := by
  induction pieces with
  | nil => simp
  | cons s rest ih =>
    obtain ⟨hs, hrest⟩ := h
    rw [join_cons_append, causes_append hs, ih hrest]
    rfl

end Report

end StoredRoutine
