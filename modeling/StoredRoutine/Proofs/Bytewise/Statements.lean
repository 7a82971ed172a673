import StoredRoutine.Proofs.Bytewise.Scanner
import StoredRoutine.Proofs.Source.Recovery
import StoredRoutine.Proofs.Source.Spans

/-!
# Statements by the steps of the scanner

The scanner cuts a source into statements in one loop, which remembers the first semicolon inside
parentheses to go back to it if they are never closed. It cuts off what the glyphs of the source
are cut into, each statement with the places of its bytes (`statements_eq`).
-/

namespace StoredRoutine.Bytewise

open Source (byteLength Position Glyph Statement glyphsFrom cutAfter? depthAfter
  collapse collapseFrom stopAfter firstStatement? statementsOf Legible)
open Scanner (Moves copyNext turn)

/-! ## The loop -/

/-- A statement that was cut off: what was copied of it, the offset behind it, and whether it ends
in its semicolon. -/
structure Cut where
  buffer : Buffer
  stop : Nat
  terminated : Bool

/-- What the loop comes to. -/
inductive Outcome where
  /-- A semicolon outside parentheses. -/
  | ended (cut : Cut) (behind : Scanner)
  /-- The end of the source, with what was copied, the depth of parentheses there, and the statement
  that ends at the first semicolon inside of them. -/
  | unended (left : Buffer) (depth : Int) (fallback : Option (Cut × Scanner)) (stop : Nat)

/-- Goes on with a statement of which some has been copied, at a depth of parentheses. -/
def statementFrom (sc : Scanner) (current : Buffer) (depth : Int)
    (fallback : Option (Cut × Scanner)) : Checked Outcome :=
  match _h : sc.rest with
  | [] => return .unended current depth fallback sc.place.offset
  | c :: _ =>
    if _hc : c = ';' then
      follow sc.advance fun behind _found =>
        let cut : Cut := ⟨current.push c sc.place, behind.place.offset, true⟩
        if depth ≤ 0 then return .ended cut behind
        else statementFrom behind cut.buffer depth (fallback.or (some (cut, behind)))
    else
      follow (copyNext sc current) fun copied _found =>
        statementFrom copied.1 copied.2 (depth + turn c) fallback
termination_by sc.rest.length
decreasing_by
  · exact Scanner.lt_of_advance _h _found
  · exact Scanner.lt_of_copyNext _h _found

/-! ## One statement -/

theorem Scanner.Moves.trans {sc mid next : Scanner} {gs hs : List Glyph}
    (h : Moves .code sc mid gs) (h' : Moves .code mid next hs) :
    Moves .code sc next (gs ++ hs) where
  glyphs := by rw [h.glyphs, h'.glyphs, List.append_assoc]
  length := Nat.le_trans h'.length h.length
  stop := h'.stop.trans h.stop

theorem stopAfter_append (gs : List Glyph) {hs : List Glyph} (h : hs ≠ []) :
    stopAfter (gs ++ hs) = stopAfter hs := by
  rw [stopAfter, stopAfter, List.getLast?_append, List.getLast?_eq_some_getLast h]
  rfl

/-- The semicolon in front of the scanner, as a glyph. -/
theorem moves_semicolon (t : List Char) (p : Position) :
    Moves .code ⟨';' :: t, p⟩ ⟨t, p.next ';'⟩ [⟨';', false, p⟩] where
  glyphs := Source.glyphsFrom_code (fun h => absurd h.1 (by decide))
    (fun h => absurd h.1 (by decide))
  length := Nat.le_succ _
  stop := Scanner.stop_cons ';' t p

/-- What is left in front of the scanner has the glyphs. -/
def Scanner.glyphs (sc : Scanner) : List Glyph := glyphsFrom .code sc.place sc.rest

/-- Behind the glyphs of a statement, cut off with what had been copied before. -/
structure CutsOff (sc : Scanner) (current : Buffer) (first : List Glyph) (cut : Cut)
    (behind : Scanner) : Prop where
  cut_eq : cut = ⟨current.lay first, stopAfter first, true⟩
  moves : Moves .code sc behind first
  shorter : behind.rest.length < sc.rest.length

theorem CutsOff.after {sc mid : Scanner} {current : Buffer} {gs first : List Glyph} {cut : Cut}
    {behind : Scanner} (moves : Moves .code sc mid gs) (nonempty : first ≠ [])
    (h : CutsOff mid (current.lay gs) first cut behind) :
    CutsOff sc current (gs ++ first) cut behind where
  cut_eq := by rw [h.cut_eq, Buffer.lay_append, stopAfter_append gs nonempty]
  moves := moves.trans h.moves
  shorter := Nat.lt_of_lt_of_le h.shorter moves.length

/-- The statement that ends at a semicolon at the given place. -/
def Buffer.endAt (current : Buffer) (p : Position) : Cut :=
  ⟨current.push ';' p, (p.next ';').offset, true⟩

theorem cutsOff_semicolon (t : List Char) (p : Position) (current : Buffer) :
    CutsOff ⟨';' :: t, p⟩ current [⟨';', false, p⟩] (current.endAt p) ⟨t, p.next ';'⟩ where
  cut_eq := rfl
  moves := moves_semicolon t p
  shorter := Nat.lt_succ_self _

/-- The semicolon in front of the scanner ends a statement, or it is passed over. -/
theorem cutAfter?_semicolon (ends : Int → Bool) (depth : Int) (t : List Char) (p : Position) :
    cutAfter? ends depth (Scanner.glyphs ⟨';' :: t, p⟩)
      = if ends depth then some ([⟨';', false, p⟩], Scanner.glyphs ⟨t, p.next ';'⟩)
        else (cutAfter? ends depth (Scanner.glyphs ⟨t, p.next ';'⟩)).map
          fun (first, others) => (⟨';', false, p⟩ :: first, others) := by
  have still : depth + Glyph.turn ⟨';', false, p⟩ = depth := Int.add_zero depth
  rw [Scanner.glyphs, (moves_semicolon t p).glyphs, List.singleton_append, cutAfter?, still]
  rfl

theorem statementFrom_semicolon (t : List Char) (p : Position) (current : Buffer) (depth : Int)
    (fallback : Option (Cut × Scanner)) :
    statementFrom ⟨';' :: t, p⟩ current depth fallback
      = if depth ≤ 0 then .ok (.ended (current.endAt p) ⟨t, p.next ';'⟩)
        else statementFrom ⟨t, p.next ';'⟩ (current.endAt p).buffer depth
          (fallback.or (some (current.endAt p, ⟨t, p.next ';'⟩))) := by
  rw [statementFrom]
  dsimp only
  rw [dif_pos rfl, follow_eq (Scanner.advance_cons ';' t p)]
  rfl

theorem statementFrom_copy {c : Char} (hc : c ≠ ';') (t : List Char) (p : Position) :
    ∃ next gs, Scanner.Copies ⟨c :: t, p⟩ next gs (turn c) ∧
      (∀ current, copyNext ⟨c :: t, p⟩ current = .ok (next, current.lay gs)) ∧
      ∀ current depth fallback, statementFrom ⟨c :: t, p⟩ current depth fallback
        = statementFrom next (current.lay gs) (depth + turn c) fallback := by
  obtain ⟨next, gs, copied, facts⟩ := Scanner.copiesNext hc t p
  refine ⟨next, gs, facts, copied, fun current depth fallback => ?_⟩
  rw [statementFrom]
  dsimp only
  rw [dif_neg hc, follow_eq (copied current)]

/-- What is copied is passed over. -/
theorem Scanner.Copies.cutAfter?_eq {sc next : Scanner} {gs : List Glyph} {change : Int}
    (h : Scanner.Copies sc next gs change) (ends : Int → Bool) (depth : Int) :
    cutAfter? ends depth sc.glyphs = (cutAfter? ends (depth + change) next.glyphs).map
      fun (first, others) => (gs ++ first, others) := by
  rw [Scanner.glyphs, h.moves.glyphs, Source.cutAfter?_append_of_forall h.runs, h.depth]
  rfl

/-- A statement that ends at a semicolon. -/
theorem exists_ended {sc : Scanner} {depth : Int} {first others : List Glyph}
    (h : cutAfter? (· ≤ 0) depth sc.glyphs = some (first, others)) (current : Buffer)
    (fallback : Option (Cut × Scanner)) :
    ∃ cut behind, statementFrom sc current depth fallback = .ok (.ended cut behind) ∧
      CutsOff sc current first cut behind := by
  induction size : sc.rest.length using Nat.strongRecOn generalizing sc depth first current fallback
  with
  | ind k ih =>
    obtain ⟨s, p⟩ := sc
    subst size
    cases s with
    | nil => cases h
    | cons c t =>
      by_cases semicolon : c = ';'
      · subst semicolon
        rw [cutAfter?_semicolon] at h
        rw [statementFrom_semicolon]
        by_cases level : depth ≤ 0
        · rw [if_pos (decide_eq_true level)] at h
          obtain ⟨rfl, rfl⟩ := Prod.mk.inj (Option.some.inj h)
          exact ⟨_, _, if_pos level, cutsOff_semicolon t p current⟩
        · rw [if_neg (by simpa using level)] at h
          obtain ⟨⟨inner, rest⟩, found, split⟩ := Option.map_eq_some_iff.1 h
          obtain ⟨rfl, rfl⟩ := Prod.mk.inj split
          obtain ⟨cut, behind, result, cutsOff⟩ :=
            ih t.length (Nat.lt_succ_self _) found (current.endAt p).buffer _ rfl
          rw [if_neg level]
          exact ⟨cut, behind, result,
            cutsOff.after (moves_semicolon t p) (Source.cutAfter?_eq_some found).2⟩
      · obtain ⟨next, gs, facts, -, step⟩ := statementFrom_copy semicolon t p
        rw [facts.cutAfter?_eq] at h
        obtain ⟨⟨inner, rest⟩, found, split⟩ := Option.map_eq_some_iff.1 h
        obtain ⟨rfl, rfl⟩ := Prod.mk.inj split
        obtain ⟨cut, behind, result, cutsOff⟩ :=
          ih _ facts.shorter found (current.lay gs) fallback rfl
        exact ⟨cut, behind, (step current depth fallback).trans result,
          cutsOff.after facts.moves (Source.cutAfter?_eq_some found).2⟩

/-- Where the statement is cut off that ends at the first semicolon of all, if there is one. -/
def FallsBack (sc : Scanner) (current : Buffer) (depth : Int) (cut? : Option (Cut × Scanner)) :
    Prop :=
  match cutAfter? (fun _ => true) depth sc.glyphs with
  | none => cut? = none
  | some (first, _) => ∃ cut behind, cut? = some (cut, behind) ∧ CutsOff sc current first cut behind

theorem FallsBack.after {sc mid : Scanner} {current : Buffer} {gs : List Glyph} {change : Int}
    (facts : Scanner.Copies sc mid gs change) {depth : Int} {cut? : Option (Cut × Scanner)}
    (h : FallsBack mid (current.lay gs) (depth + change) cut?) :
    FallsBack sc current depth cut? := by
  unfold FallsBack at h ⊢
  rw [facts.cutAfter?_eq]
  cases found : cutAfter? (fun _ => true) (depth + change) mid.glyphs with
  | none =>
    rw [found] at h
    exact h
  | some parts =>
    rw [found] at h
    obtain ⟨cut, behind, rfl, cutsOff⟩ := h
    exact ⟨cut, behind, rfl, cutsOff.after facts.moves (Source.cutAfter?_eq_some found).2⟩

/-- A statement that the source ends in. -/
theorem exists_unended {sc : Scanner} {depth : Int}
    (h : cutAfter? (· ≤ 0) depth sc.glyphs = none) (current : Buffer)
    (fallback : Option (Cut × Scanner)) :
    ∃ cut?, statementFrom sc current depth fallback
        = .ok (.unended (current.lay sc.glyphs) (depth + depthAfter sc.glyphs) (fallback.or cut?)
            (sc.place.offset + byteLength sc.rest)) ∧
      FallsBack sc current depth cut? := by
  induction size : sc.rest.length using Nat.strongRecOn generalizing sc depth current fallback with
  | ind k ih =>
    obtain ⟨s, p⟩ := sc
    subst size
    cases s with
    | nil =>
      refine ⟨none, ?_, rfl⟩
      have none : Scanner.glyphs ⟨[], p⟩ = [] := rfl
      rw [statementFrom, none, depthAfter, Int.add_zero, Option.or_none]
      rfl
    | cons c t =>
      by_cases semicolon : c = ';'
      · subst semicolon
        rw [cutAfter?_semicolon] at h
        have level : ¬ depth ≤ 0 := fun level => by
          rw [if_pos (decide_eq_true level)] at h
          cases h
        rw [if_neg (by simpa using level)] at h
        -- whatever is cut off behind this semicolon gives way to what ends at it
        obtain ⟨cut?, result, -⟩ := ih t.length (Nat.lt_succ_self _) (Option.map_eq_none_iff.1 h)
          (current.endAt p).buffer (fallback.or (some (current.endAt p, ⟨t, p.next ';'⟩))) rfl
        refine ⟨some (current.endAt p, ⟨t, p.next ';'⟩), ?_, ?_⟩
        · have split : Scanner.glyphs ⟨';' :: t, p⟩
              = ⟨';', false, p⟩ :: Scanner.glyphs ⟨t, p.next ';'⟩ := (moves_semicolon t p).glyphs
          have still : depth + depthAfter (⟨';', false, p⟩ :: Scanner.glyphs ⟨t, p.next ';'⟩)
              = depth + depthAfter (Scanner.glyphs ⟨t, p.next ';'⟩) := by
            rw [depthAfter]
            exact congrArg (depth + ·) (Int.zero_add _)
          rw [statementFrom_semicolon, if_neg level, result, split, still,
            ← Scanner.stop_cons, Option.or_assoc]
          rfl
        · rw [FallsBack, cutAfter?_semicolon]
          exact ⟨_, _, rfl, cutsOff_semicolon t p current⟩
      · obtain ⟨next, gs, facts, -, step⟩ := statementFrom_copy semicolon t p
        rw [facts.cutAfter?_eq] at h
        obtain ⟨cut?, result, falls⟩ := ih _ facts.shorter (Option.map_eq_none_iff.1 h)
          (current.lay gs) fallback rfl
        have split : Scanner.glyphs ⟨c :: t, p⟩ = gs ++ next.glyphs := facts.moves.glyphs
        refine ⟨cut?, ?_, falls.after facts⟩
        rw [step, result, split, Buffer.lay_append, Source.depthAfter_append, facts.depth,
          facts.moves.stop, Int.add_assoc]

/-! ## All statements -/

theorem lt_of_ended {sc : Scanner} {cut : Cut} {behind : Scanner}
    (h : statementFrom sc .empty 0 none = .ok (.ended cut behind)) :
    behind.rest.length < sc.rest.length := by
  cases found : cutAfter? (· ≤ 0) 0 sc.glyphs with
  | none =>
    obtain ⟨cut?, result, -⟩ := exists_unended found .empty none
    cases h.symm.trans result
  | some parts =>
    obtain ⟨cut', behind', result, cutsOff⟩ := exists_ended found .empty none
    cases h.symm.trans result
    exact cutsOff.shorter

theorem lt_of_fallback {sc : Scanner} {left : Buffer} {depth : Int} {cut : Cut} {behind : Scanner}
    {stop : Nat}
    (h : statementFrom sc .empty 0 none = .ok (.unended left depth (some (cut, behind)) stop)) :
    behind.rest.length < sc.rest.length := by
  cases found : cutAfter? (· ≤ 0) 0 sc.glyphs with
  | none =>
    obtain ⟨cut?, result, falls⟩ := exists_unended found .empty none
    rw [FallsBack] at falls
    split at falls
    · subst falls
      cases h.symm.trans result
    · obtain ⟨cut', behind', rfl, cutsOff⟩ := falls
      cases h.symm.trans result
      exact cutsOff.shorter
  | some parts =>
    obtain ⟨cut', behind', result, -⟩ := exists_ended found .empty none
    cases h.symm.trans result

/-- What is left of the source is a statement, unless it is blank. -/
def lastCut (left : Buffer) (stop : Nat) : List Cut :=
  if Text.isBlankText left.text then [] else [⟨left, stop, false⟩]

/-- Cuts off the statements in front of the scanner. -/
def statementsFrom (sc : Scanner) : Checked (List Cut) :=
  follow (statementFrom sc .empty 0 none) fun outcome _found =>
    match _h : outcome with
    | .ended cut behind => do
      let others ← statementsFrom behind
      return cut :: others
    | .unended left depth (some (cut, behind)) stop =>
      if 0 < depth then do
        let others ← statementsFrom behind
        return cut :: others
      else return lastCut left stop
    | .unended left _ none stop => return lastCut left stop
termination_by sc.rest.length
decreasing_by
  · subst _h
    exact lt_of_ended _found
  · subst _h
    exact lt_of_fallback _found

/-- Cuts a source into statements. -/
def statements (source : List Char) : Checked (List Cut) := statementsFrom (.start source)

/-- A statement as it is cut off. -/
def Cut.of (s : Statement) : Cut := ⟨.ofGlyphs s.glyphs, s.stop, s.terminated⟩

theorem legible_glyphs (sc : Scanner) : Legible .start sc.glyphs :=
  Source.legible_glyphsFrom .code sc.place sc.rest .start rfl

theorem lay_empty {gs : List Glyph} (h : Legible .start gs) :
    Buffer.empty.lay gs = .ofGlyphs (collapse gs) :=
  Buffer.lay_eq (fun q hq => by cases hq) h [] true fun _ => rfl

/-- What a statement that is cut off has in it. -/
theorem CutsOff.eq_of {sc behind : Scanner} {first : List Glyph} {cut : Cut}
    (h : CutsOff sc .empty first cut behind) :
    cut = Cut.of ⟨collapse first, stopAfter first, true⟩ := by
  have legible : Legible .start (first ++ behind.glyphs) := by
    rw [Scanner.glyphs, ← h.moves.glyphs]
    exact legible_glyphs sc
  rw [h.cut_eq, lay_empty legible.left]
  rfl

/-- What stands first once gaps are collapsed is not blank. -/
theorem isBlank_of_collapse {n : Text.Nesting} (hn : n.quote = none) {gs : List Glyph}
    (h : Legible n gs) {g : Glyph} {rest : List Glyph} (hg : collapse gs = g :: rest) :
    Text.isBlank g.char = false := by
  induction gs with
  | nil => cases hg
  | cons first gs ih =>
    rw [collapse, collapseFrom, Bool.and_true] at hg
    by_cases gap : first.isGap = true
    · rw [if_pos gap] at hg
      have tail : Legible n gs := by rw [← (h.gap gap).2.1]; exact h.2.2
      exact ih tail hg
    · rw [if_neg gap] at hg
      obtain ⟨rfl, -⟩ := List.cons.inj hg
      exact h.isBlank_eq_false hn (eq_false_of_ne_true gap)

/-- A last statement is left out if all its glyphs are gaps. -/
theorem lastCut_eq {gs : List Glyph} (h : Legible .start gs) (stop : Nat) :
    lastCut (Buffer.empty.lay gs) stop
      = (match collapse gs with
        | [] => []
        | last => [⟨last, stop, false⟩] : List Statement).map Cut.of := by
  rw [lay_empty h, lastCut]
  cases last : collapse gs with
  | nil => rfl
  | cons g rest =>
    have shown := isBlank_of_collapse (show Text.Nesting.start.quote = none from rfl) h last
    have nonblank : Text.isBlankText (Buffer.ofGlyphs (g :: rest)).text = false := by
      simp [Buffer.ofGlyphs, Glyph.text, Text.isBlankText, shown]
    rw [nonblank]
    rfl

/-- **What the loop comes to** tells the first statement: it is cut off at once or, if a parenthesis
is still open at the end of the source, as the statement to go back to; or there is none, and the
end is reached with everything copied. -/
theorem statementFrom_cases (sc : Scanner) :
    (∃ first cut behind, firstStatement? sc.glyphs = some (first, behind.glyphs) ∧
      CutsOff sc .empty first cut behind ∧
      (statementFrom sc .empty 0 none = .ok (.ended cut behind) ∨
        ∃ left depth stop, 0 < depth ∧
          statementFrom sc .empty 0 none
            = .ok (.unended left depth (some (cut, behind)) stop))) ∨
    (firstStatement? sc.glyphs = none ∧ ∃ depth fallback,
      (fallback.isSome = true → depth ≤ 0) ∧
      statementFrom sc .empty 0 none
        = .ok (.unended (Buffer.empty.lay sc.glyphs) depth fallback
            (sc.place.offset + byteLength sc.rest))) := by
  have behind_glyphs {first others : List Glyph} {cut : Cut} {behind : Scanner}
      (cutsOff : CutsOff sc .empty first cut behind) (split : sc.glyphs = first ++ others) :
      others = behind.glyphs :=
    List.append_cancel_left (split.symm.trans cutsOff.moves.glyphs)
  cases found : cutAfter? (· ≤ 0) 0 sc.glyphs with
  | some parts =>
    obtain ⟨first, others⟩ := parts
    obtain ⟨cut, behind, result, cutsOff⟩ := exists_ended found .empty none
    obtain rfl := behind_glyphs cutsOff (Source.cutAfter?_eq_some found).1
    exact .inl ⟨first, cut, behind, by rw [firstStatement?, found], cutsOff, .inl result⟩
  | none =>
    obtain ⟨cut?, result, falls⟩ := exists_unended found .empty none
    have first? : firstStatement? sc.glyphs
        = if 0 < depthAfter sc.glyphs then cutAfter? (fun _ => true) 0 sc.glyphs else none := by
      rw [firstStatement?, found]
    rw [Option.none_or, Int.zero_add] at result
    rw [FallsBack] at falls
    by_cases inside : 0 < depthAfter sc.glyphs
    · rw [if_pos inside] at first?
      cases any : cutAfter? (fun _ => true) 0 sc.glyphs with
      | none =>
        rw [any] at falls first?
        subst falls
        exact .inr ⟨first?, _, none, (fun some => by cases some), result⟩
      | some parts =>
        obtain ⟨first, others⟩ := parts
        rw [any] at falls first?
        obtain ⟨cut, behind, rfl, cutsOff⟩ := falls
        obtain rfl := behind_glyphs cutsOff (Source.cutAfter?_eq_some any).1
        exact .inl ⟨first, cut, behind, first?, cutsOff, .inr ⟨_, _, _, inside, result⟩⟩
    · rw [if_neg inside] at first?
      exact .inr ⟨first?, _, cut?, fun _ => Int.not_lt.1 inside, result⟩

theorem statementsFrom_eq (sc : Scanner) :
    statementsFrom sc = .ok ((statementsOf (sc.place.offset + byteLength sc.rest) sc.glyphs).map
      Cut.of) := by
  induction size : sc.rest.length using Nat.strongRecOn generalizing sc with
  | ind k ih =>
    subst size
    rw [statementsFrom]
    obtain ⟨first, cut, behind, first?, cutsOff, result⟩ | ⟨none?, depth, fallback, level, result⟩ :=
      statementFrom_cases sc
    · have next : (do
            let others ← statementsFrom behind
            return cut :: others : Checked (List Cut))
          = .ok ((statementsOf (sc.place.offset + byteLength sc.rest) sc.glyphs).map Cut.of) := by
        rw [ih _ cutsOff.shorter behind rfl, ok_bind, Source.statementsOf_eq_cons first?,
          cutsOff.moves.stop, cutsOff.eq_of]
        rfl
      rcases result with result | ⟨left, depth, stop, inside, result⟩
      · rw [follow_eq result]
        exact next
      · rw [follow_eq result]
        exact (if_pos inside).trans next
    · have last : lastCut (Buffer.empty.lay sc.glyphs) (sc.place.offset + byteLength sc.rest)
          = (statementsOf (sc.place.offset + byteLength sc.rest) sc.glyphs).map Cut.of := by
        rw [Source.statementsOf_eq_last none?]
        exact lastCut_eq (legible_glyphs sc) _
      rw [follow_eq result, ← last]
      cases fallback with
      | none => rfl
      | some saved => exact if_neg (Int.not_lt.2 (level rfl))

/-- **The statements of a source** are cut off with the places of their bytes. -/
theorem statements_eq (source : List Char) :
    statements source = .ok ((Source.statements source).map Cut.of) := by
  have cuts := statementsFrom_eq (.start source)
  have size : (Scanner.start source).place.offset + byteLength (Scanner.start source).rest
      = byteLength source := Nat.zero_add _
  rw [size] at cuts
  exact cuts

end StoredRoutine.Bytewise
