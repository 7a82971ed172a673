import Mathlib.Data.List.Infix
import StoredRoutine.Proofs.Source.Isolation

/-!
# Parentheses that are never closed

A text is `IsBroken` if its only semicolon is its last character and stands inside parentheses. If
no parenthesis behind it closes one of its own, the statement is read to the very end of the
source in search of a semicolon that could end it. There is none, so it is cut at its first one,
and all that was read behind it is read again, with nothing left over from the first time
(`IsBroken.parts`).

Broken texts and settled ones can stand in any order, and each is read by itself
(`scan_recovers`).
-/

namespace StoredRoutine

namespace Source

/-! ## Where no statement ends -/

/-- Read from depth zero, the parentheses of the glyphs never close one that was not opened. -/
def NeverBelow (gs : List Glyph) : Prop := ∀ first, first <+: gs → 0 ≤ depthAfter first

instance (gs : List Glyph) : Decidable (NeverBelow gs) :=
  decidable_of_iff (∀ first ∈ gs.inits, 0 ≤ depthAfter first)
    (by simp only [List.mem_inits, NeverBelow])

theorem NeverBelow.shift {gs : List Glyph} (h : NeverBelow gs) (origin : Position) :
    NeverBelow (gs.map (Glyph.shift origin)) := by
  intro first hfirst
  have htake : first = (gs.take first.length).map (Glyph.shift origin) := by
    rw [List.map_take]
    exact List.prefix_iff_eq_take.mp hfirst
  rw [htake, depthAfter_shift]
  exact h _ (List.take_prefix _ _)

theorem depthAfter_append (gs hs : List Glyph) :
    depthAfter (gs ++ hs) = depthAfter gs + depthAfter hs := by
  induction gs with
  | nil => simp [depthAfter]
  | cons g gs ih => rw [List.cons_append, depthAfter, depthAfter, ih, Int.add_assoc]

/-- Inside parentheses that stay open, no semicolon ends a statement. -/
theorem cutAfter?_eq_none {depth : Int} (hdepth : 0 < depth) {gs : List Glyph}
    (h : ∀ first, first <+: gs → 0 < depth + depthAfter first) :
    cutAfter? (· ≤ 0) depth gs = none := by
  induction gs generalizing depth with
  | nil => rfl
  | cons g gs ih =>
    have hnot : ¬ (g.isCode ';' && decide (depth ≤ 0)) = true := by
      simp only [Bool.and_eq_true, decide_eq_true_eq, not_and]
      intro _
      omega
    have hstep : ∀ first, first <+: gs → 0 < depth + g.turn + depthAfter first := by
      intro first hfirst
      have hcons := h (g :: first) (List.cons_prefix_cons.mpr ⟨rfl, hfirst⟩)
      have hsum : depthAfter (g :: first) = g.turn + depthAfter first := by simp [depthAfter]
      omega
    have hnext : 0 < depth + g.turn := by simpa [depthAfter] using hstep [] (List.nil_prefix)
    rw [cutAfter?, if_neg hnot, ih hnext hstep]
    rfl

/-- Glyphs without a semicolon are passed over. -/
theorem cutAfter?_append_of_forall {ends : Int → Bool} {front : List Glyph}
    (h : ∀ g ∈ front, g.isCode ';' = false) (depth : Int) (gs : List Glyph) :
    cutAfter? ends depth (front ++ gs) = (cutAfter? ends (depth + depthAfter front) gs).map
      fun (first, others) => (front ++ first, others) := by
  induction front generalizing depth with
  | nil => simp [depthAfter]
  | cons g front ih =>
    obtain ⟨hg, hfront⟩ := List.forall_mem_cons.mp h
    have hsum : depth + depthAfter (g :: front) = depth + g.turn + depthAfter front := by
      simp [depthAfter, Int.add_assoc]
    rw [List.cons_append, cutAfter?, hg, Bool.false_and, if_neg Bool.false_ne_true,
      ih hfront, hsum, Option.map_map]
    rfl

/-! ## Broken texts -/

/-- What is left of a text that begins at `p` and ends in its only semicolon, when it is cut back to
that. -/
def cutBack (p : Position) (u : List Char) : Statement where
  glyphs := collapse
    ((glyphs u.dropLast).map (Glyph.shift p) ++ [⟨';', false, p.after u.dropLast⟩])
  stop := (p.after u).offset
  terminated := true

/-- The only semicolon in the open is the last character, and it stands inside parentheses. -/
structure IsBroken (u : List Char) : Prop where
  last : u.getLast? = some ';'
  around : surroundAfter .code u.dropLast = .code
  only : ∀ g ∈ glyphs u.dropLast, g.isCode ';' = false
  inside : 0 < depthAfter (glyphs u.dropLast)

instance (u : List Char) : Decidable (IsBroken u) :=
  decidable_of_iff (u.getLast? = some ';' ∧ surroundAfter .code u.dropLast = .code ∧
      (∀ g ∈ glyphs u.dropLast, g.isCode ';' = false) ∧ 0 < depthAfter (glyphs u.dropLast))
    ⟨fun ⟨last, around, only, inside⟩ => ⟨last, around, only, inside⟩,
      fun ⟨last, around, only, inside⟩ => ⟨last, around, only, inside⟩⟩

/-- **Cutting back.** Glyphs whose only semicolon comes last and stands inside parentheses are a
statement, if nothing behind them closes the parentheses. -/
theorem firstStatement?_of_unclosed {front gs : List Glyph} {g : Glyph}
    (honly : ∀ g ∈ front, g.isCode ';' = false) (hg : g.isCode ';' = true)
    (hinside : 0 < depthAfter front) (hgs : NeverBelow gs) :
    firstStatement? (front ++ g :: gs) = some (front ++ [g], gs) := by
  have hturn : g.turn = 0 := by
    obtain ⟨hquoted, hc⟩ : g.quoted = false ∧ g.char = ';' := by
      simpa [Glyph.isCode] using hg
    simp [Glyph.turn, Glyph.isCode, hc]
  have hnot : ¬ (g.isCode ';' && decide (0 + depthAfter front ≤ 0)) = true := by
    simp only [Bool.and_eq_true, decide_eq_true_eq, not_and]
    intro _
    omega
  -- the search for the end of the statement fails, with the parenthesis still open
  have hnone : cutAfter? (· ≤ 0) 0 (front ++ g :: gs) = none := by
    rw [cutAfter?_append_of_forall honly, cutAfter?, if_neg hnot, cutAfter?_eq_none]
    · rfl
    · omega
    · intro first hfirst
      have hnonneg := hgs first hfirst
      omega
  have hopen : 0 < depthAfter (front ++ g :: gs) := by
    have hnonneg := hgs gs List.prefix_rfl
    have hcons : depthAfter (g :: gs) = g.turn + depthAfter gs := by simp [depthAfter]
    rw [depthAfter_append]
    omega
  rw [firstStatement?, hnone]
  dsimp only
  rw [if_pos hopen, cutAfter?_append_of_forall honly, cutAfter?, hg]
  rfl

namespace IsBroken

variable {u : List Char} (hu : IsBroken u)

include hu

/-- The glyphs of a broken text, and of what follows it. -/
theorem glyphsFrom_append (p : Position) (t : List Char) :
    glyphsFrom .code p (u ++ t) = (glyphs u.dropLast).map (Glyph.shift p) ++
      ⟨';', false, p.after u.dropLast⟩ :: glyphsFrom .code (p.after u) t := by
  obtain ⟨hlast, haround, -, -⟩ := hu
  obtain ⟨front, rfl⟩ := List.getLast?_eq_some_iff.mp hlast
  rw [List.dropLast_concat] at haround ⊢
  have hmeet : MeetApart (glyphsFrom .code p front) (';' :: t) := by
    intro g _
    simp
  have hsemicolon : glyphsFrom .code (p.after front) (';' :: t) =
      ⟨';', false, p.after front⟩ :: glyphsFrom .code ((p.after front).next ';') t := by
    rw [glyphsFrom_code (by simp) (by simp)]
    rfl
  rw [List.append_assoc, List.singleton_append, glyphsFrom_append_of_code haround hmeet,
    hsemicolon, glyphsFrom_origin p front, Position.after_append]
  rfl

/-- **Cutting back to the first semicolon**, wherever the text stands. -/
theorem statementsOf_append (p : Position) {t : List Char} (ht : NeverBelow (glyphs t))
    (size : Nat) :
    statementsOf size (glyphsFrom .code p (u ++ t)) =
      cutBack p u :: statementsOf size (glyphsFrom .code (p.after u) t) := by
  have honly : ∀ g ∈ (glyphs u.dropLast).map (Glyph.shift p), g.isCode ';' = false := by
    intro g hg
    obtain ⟨g', hg', rfl⟩ := List.mem_map.mp hg
    exact hu.only g' hg'
  have hinside : 0 < depthAfter ((glyphs u.dropLast).map (Glyph.shift p)) := by
    rw [depthAfter_shift]
    exact hu.inside
  have htail : NeverBelow (glyphsFrom .code (p.after u) t) := by
    rw [glyphsFrom_origin]
    exact ht.shift _
  have hfirst := firstStatement?_of_unclosed (g := ⟨';', false, p.after u.dropLast⟩) honly rfl
    hinside htail
  have hstop : stopAfter ((glyphs u.dropLast).map (Glyph.shift p) ++
      [⟨';', false, p.after u.dropLast⟩]) = (p.after u).offset := by
    obtain ⟨front, rfl⟩ := List.getLast?_eq_some_iff.mp hu.last
    rw [stopAfter, List.getLast?_concat, List.dropLast_concat, Position.after_append]
    rfl
  rw [hu.glyphsFrom_append, statementsOf_eq_cons hfirst, hstop]
  rfl

/-- By itself, a broken text is one statement. -/
theorem statementsOf_eq_singleton (p : Position) (size : Nat) :
    statementsOf size (glyphsFrom .code p u) = [cutBack p u] := by
  have hempty : NeverBelow (glyphs []) := by decide
  have happend := hu.statementsOf_append p hempty size
  rw [List.append_nil] at happend
  rw [happend, glyphsFrom, statementsOf_nil]

/-- A broken text parts from what follows it, if nothing there closes its parentheses. -/
theorem parts {t : List Char} (ht : NeverBelow (glyphs t)) : Parts u t := by
  intro p n size
  rw [hu.statementsOf_append p ht, hu.statementsOf_eq_singleton]
  rfl

end IsBroken

/-! ## Main statement -/

/-- Texts one behind the other, up to the last one, each of which is settled, or is broken and has
nothing behind it that closes its parentheses. -/
def Recoverable : List String → String → Prop
  | [], _ => True
  | u :: rest, last =>
    (IsSettled u.toList ∨
      IsBroken u.toList ∧ NeverBelow (glyphs (String.join rest ++ last).toList)) ∧
    Recoverable rest last

/-- Such texts part from one another. -/
theorem Recoverable.partsInTurn {pieces : List String} {u r : String}
    (h : Recoverable pieces (u ++ r)) (hu : Parts u.toList r.toList) :
    PartsInTurn (pieces ++ [u]) r := by
  induction pieces with
  | nil =>
    have hlast : String.join [] ++ r = r := by simp
    exact ⟨by rwa [hlast], trivial⟩
  | cons s rest ih =>
    obtain ⟨hs, hrest⟩ := h
    have hjoin : String.join (rest ++ [u]) ++ r = String.join rest ++ (u ++ r) := by
      simp [String.append_assoc]
    have hbehind : Parts s.toList (String.join (rest ++ [u]) ++ r).toList := by
      rw [hjoin]
      rcases hs with hsettled | ⟨hbroken, hbelow⟩
      · exact hsettled.parts _
      · exact hbroken.parts hbelow
    exact ⟨hbehind, ih hrest⟩

/-- **Recovery.** A broken text is one statement, which ends in its semicolon. What stands behind it
is read as it is by itself, if nothing there closes the parentheses of the broken text. So it is for
any number of broken texts, and for settled ones between them: every piece has the fragments it has
by itself, and what is built of a source is what is built of its pieces. -/
theorem scan_recovers {u r : String} (hu : IsBroken u.toList)
    (hr : NeverBelow (glyphs r.toList)) :
    scan (u ++ r) = scan u ++ (scan r).map (Fragment.shift (Position.start.after u.toList)) ∧
    (∃ s : Statement, statements u.toList = [s] ∧ s.terminated = true ∧
      s.stop = byteLength u.toList) ∧
    ∀ pieces : List String, Recoverable pieces (u ++ r) →
      scan (String.join pieces ++ (u ++ r)) = located .start (pieces ++ [u, r]) ∧
      ∀ (types : TypeTable) (name : String),
        (Report.ofSource types name (String.join pieces ++ (u ++ r))).package.members =
          (pieces ++ [u, r]).flatMap (fun s => (Report.ofSource types name s).package.members) ∧
        (Report.ofSource types name (String.join pieces ++ (u ++ r))).errors.map (·.cause) =
          (pieces ++ [u, r]).flatMap
            fun s => (Report.ofSource types name s).errors.map (·.cause) := by
  have hparts : Parts u.toList r.toList := hu.parts hr
  refine ⟨hparts.scan_append, ⟨cutBack .start u.toList, ?_, rfl, ?_⟩, fun pieces hpieces => ?_⟩
  · exact hu.statementsOf_eq_singleton .start _
  · rw [cutBack, Position.offset_after]
    exact Nat.zero_add _
  · have hturn : PartsInTurn (pieces ++ [u]) r := hpieces.partsInTurn hparts
    have hjoin : String.join (pieces ++ [u]) ++ r = String.join pieces ++ (u ++ r) := by
      simp [String.append_assoc]
    have hlist : pieces ++ [u] ++ [r] = pieces ++ [u, r] := by simp
    rw [← hjoin, ← hlist]
    refine ⟨hturn.scan_join, fun types name => ⟨?_, ?_⟩⟩
    · exact Report.members_join hturn types name
    · exact Report.causes_join hturn types name

/-- Two procedures with a parenthesis too few, and between them a function that is none the worse
for it. -/
theorem scan_recovers_twice :
    let first := "package P is\nprocedure A(x number;"
    let between := "\nfunction F return number;"
    let u := "\nprocedure B(y (z /* ; */;"
    let r := "\nfunction G(a number) return date;"
    IsBroken u.toList ∧ NeverBelow (glyphs r.toList) ∧ Recoverable [first, between] (u ++ r) ∧
      scan (String.join [first, between] ++ (u ++ r)) =
        located .start [first, between, u, r] ∧
      located .start [first, between, u, r] = [
        ⟨.procedure, "procedure A(x number;", ⟨13, 34, 2, 1⟩, true⟩,
        ⟨.function, "function F return number;", ⟨35, 60, 3, 1⟩, true⟩,
        ⟨.procedure, "procedure B(y (z ;", ⟨61, 86, 4, 1⟩, true⟩,
        ⟨.function, "function G(a number) return date;", ⟨87, 120, 5, 1⟩, true⟩] := by
  intro first between u r
  have hu : IsBroken u.toList := by decide
  have hr : NeverBelow (glyphs r.toList) := by decide +kernel
  have hfirst : IsBroken first.toList := by decide
  have hbelow : NeverBelow (glyphs (String.join [between] ++ (u ++ r)).toList) := by
    decide +kernel
  have hbetween : IsSettled between.toList := by decide
  have hpieces : Recoverable [first, between] (u ++ r) :=
    ⟨.inr ⟨hfirst, hbelow⟩, .inl hbetween, trivial⟩
  have hscan := ((scan_recovers hu hr).2.2 _ hpieces).1
  refine ⟨hu, hr, hpieces, hscan, ?_⟩
  decide +kernel

end Source

end StoredRoutine
