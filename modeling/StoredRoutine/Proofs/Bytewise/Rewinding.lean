import StoredRoutine.Proofs.Bytewise.Safety

/-!
# Going back

The loop that cuts a source into statements goes back when the source ends inside of parentheses: it
cuts off the statement at its first semicolon and goes on reading behind that. Here the loop is
watched turn by turn (`Loop.turn`), and a run of it is the list of its moves (`Runs`).

A run reaches its end for every source (`statements_terminate`). A turn that reads takes at least
one character. A turn that goes back resumes right behind a semicolon, which stands behind
everything that was read before the statement that it cuts off, so a later one resumes farther on,
and the semicolons in the open are not fewer than the turns that go back.
-/

namespace StoredRoutine.Bytewise

open Source (byteLength Position Glyph glyphsFrom collapse collapseFrom stopAfter firstStatement?
  statementsOf)
open Scanner (copyNext turn)

/-! ## Turns of the loop -/

/-- What the loop has at hand: the scanner, the statements cut off so far, what was copied of the
next one, the depth of parentheses in it, and the statement that ends at its first semicolon inside
of parentheses, with the scanner behind that. -/
structure Loop where
  scanner : Scanner
  cuts : List Cut
  current : Buffer
  depth : Int
  fallback : Option (Cut × Scanner)

namespace Loop

/-- The loop in front of a statement. -/
def fresh (sc : Scanner) (cuts : List Cut) : Loop := ⟨sc, cuts, .empty, 0, none⟩

/-- The loop in front of a whole source. -/
def start (source : List Char) : Loop := .fresh (.start source) []

end Loop

/-- What a turn of the loop does: it reads on, it goes back with a statement that it cuts off, or it
ends with all statements. -/
inductive Turn where
  | reads (next : Loop)
  | rewinds (cut : Cut) (next : Loop)
  | ends (cuts : List Cut)

/-- One turn of the loop. -/
def Loop.turn (l : Loop) : Checked Turn :=
  match l.scanner.rest with
  | [] =>
    match l.fallback with
    | some (cut, resume) =>
      if 0 < l.depth then return .rewinds cut (.fresh resume (l.cuts ++ [cut]))
      else return .ends (l.cuts ++ lastCut l.current l.scanner.place.offset)
    | none => return .ends (l.cuts ++ lastCut l.current l.scanner.place.offset)
  | c :: _ =>
    if c = ';' then do
      let behind ← l.scanner.advance
      let cut : Cut := ⟨l.current.push c l.scanner.place, behind.place.offset, true⟩
      if l.depth ≤ 0 then return .reads (.fresh behind (l.cuts ++ [cut]))
      else return .reads { l with
        scanner := behind
        current := cut.buffer
        fallback := l.fallback.or (some (cut, behind)) }
    else do
      let copied ← copyNext l.scanner l.current
      return .reads { l with
        scanner := copied.1
        current := copied.2
        depth := l.depth + Scanner.turn c }

/-! ## Runs -/

/-- What the loop did in a turn: it read from one place to another one, or it cut off a statement
and went back to resume behind it. -/
inductive Move where
  | read (here there : Scanner)
  | rewind (cut : Cut) (resume : Scanner)

/-- **A run of the loop** up to its end, with its moves and the statements it ends with. -/
inductive Runs : Loop → List Move → List Cut → Prop
  | ends {l : Loop} {cuts : List Cut} (h : l.turn = .ok (.ends cuts)) : Runs l [] cuts
  | reads {l next : Loop} {moves : List Move} {cuts : List Cut} (h : l.turn = .ok (.reads next))
      (rest : Runs next moves cuts) : Runs l (.read l.scanner next.scanner :: moves) cuts
  | rewinds {l next : Loop} {cut : Cut} {moves : List Move} {cuts : List Cut}
      (h : l.turn = .ok (.rewinds cut next)) (rest : Runs next moves cuts) :
      Runs l (.rewind cut next.scanner :: moves) cuts

/-- There is one run at most. -/
theorem Runs.unique {l : Loop} {moves moves' : List Move} {cuts cuts' : List Cut}
    (h : Runs l moves cuts) (h' : Runs l moves' cuts') : moves' = moves ∧ cuts' = cuts := by
  induction h generalizing moves' cuts' with
  | ends h =>
    cases h' with
    | ends h' => cases h.symm.trans h'; exact ⟨rfl, rfl⟩
    | reads h' => cases h.symm.trans h'
    | rewinds h' => cases h.symm.trans h'
  | reads h rest ih =>
    cases h' with
    | ends h' => cases h.symm.trans h'
    | reads h' rest' =>
      cases h.symm.trans h'
      obtain ⟨rfl, rfl⟩ := ih rest'
      exact ⟨rfl, rfl⟩
    | rewinds h' => cases h.symm.trans h'
  | rewinds h rest ih =>
    cases h' with
    | ends h' => cases h.symm.trans h'
    | reads h' => cases h.symm.trans h'
    | rewinds h' rest' =>
      cases h.symm.trans h'
      obtain ⟨rfl, rfl⟩ := ih rest'
      exact ⟨rfl, rfl⟩

/-- The offsets where the run resumes after it went back, in order. -/
def resumes (moves : List Move) : List Nat :=
  moves.filterMap fun
    | .read _ _ => none
    | .rewind _ resume => some resume.place.offset

/-- The move reads, and takes at least one character. -/
def Move.Consumes : Move → Prop
  | .read here there => there.rest.length < here.rest.length
  | .rewind _ _ => False

theorem resumes_append_of_consumes {front : List Move} (h : ∀ m ∈ front, m.Consumes)
    (moves : List Move) : resumes (front ++ moves) = resumes moves := by
  induction front with
  | nil => rfl
  | cons m front ih =>
    obtain ⟨hm, others⟩ := List.forall_mem_cons.1 h
    cases m with
    | read here there => exact ih others
    | rewind cut resume => cases hm

/-! ## Reading one statement -/

/-- Where the loop comes to with the outcome of a statement. -/
def Outcome.Leads (cuts : List Cut) : Outcome → Loop → Prop
  | .ended cut behind, l => cut.stop = behind.place.offset ∧ l = .fresh behind (cuts ++ [cut])
  | .unended left depth fallback stop, l =>
    (∀ f ∈ fallback, f.1.stop = f.2.place.offset) ∧
      ∃ p : Position, p.offset = stop ∧ l = ⟨⟨[], p⟩, cuts, left, depth, fallback⟩

/-- From one loop to another one by moves that consume. -/
def ReadsTo (l next : Loop) : Prop :=
  ∃ front : List Move, (∀ m ∈ front, m.Consumes) ∧
    ∀ moves cuts, Runs next moves cuts → Runs l (front ++ moves) cuts

theorem ReadsTo.refl (l : Loop) : ReadsTo l l :=
  ⟨[], (fun m hm => by cases hm), fun _ _ run => run⟩

theorem ReadsTo.head {l mid next : Loop} (h : l.turn = .ok (.reads mid))
    (shorter : mid.scanner.rest.length < l.scanner.rest.length) (rest : ReadsTo mid next) :
    ReadsTo l next := by
  obtain ⟨front, consumes, runs⟩ := rest
  exact ⟨.read l.scanner mid.scanner :: front, List.forall_mem_cons.2 ⟨shorter, consumes⟩,
    fun moves cuts run => .reads h (runs moves cuts run)⟩

theorem turn_semicolon (t : List Char) (p : Position) (cuts : List Cut) (current : Buffer)
    (depth : Int) (fallback : Option (Cut × Scanner)) :
    Loop.turn ⟨⟨';' :: t, p⟩, cuts, current, depth, fallback⟩
      = .ok (.reads (if depth ≤ 0 then .fresh ⟨t, p.next ';'⟩ (cuts ++ [current.endAt p])
        else ⟨⟨t, p.next ';'⟩, cuts, (current.endAt p).buffer, depth,
          fallback.or (some (current.endAt p, ⟨t, p.next ';'⟩))⟩)) := by
  rw [Loop.turn]
  dsimp only
  rw [if_pos rfl, Scanner.advance_cons, ok_bind]
  split_ifs <;> rfl

theorem turn_copy {c : Char} (hc : c ≠ ';') {t : List Char} {p : Position} {next : Scanner}
    {current copied : Buffer} (h : copyNext ⟨c :: t, p⟩ current = .ok (next, copied))
    (cuts : List Cut) (depth : Int) (fallback : Option (Cut × Scanner)) :
    Loop.turn ⟨⟨c :: t, p⟩, cuts, current, depth, fallback⟩
      = .ok (.reads ⟨next, cuts, copied, depth + Scanner.turn c, fallback⟩) := by
  rw [Loop.turn]
  dsimp only
  rw [if_neg hc, h, ok_bind]
  rfl

/-- **The loop reads on to the end of a statement.** -/
theorem exists_readsTo {sc : Scanner} {current : Buffer} {depth : Int}
    {fallback : Option (Cut × Scanner)} {outcome : Outcome}
    (h : statementFrom sc current depth fallback = .ok outcome)
    (saved : ∀ f ∈ fallback, f.1.stop = f.2.place.offset) (cuts : List Cut) :
    ∃ next, outcome.Leads cuts next ∧ ReadsTo ⟨sc, cuts, current, depth, fallback⟩ next := by
  induction size : sc.rest.length using Nat.strongRecOn
    generalizing sc current depth fallback with
  | ind k ih =>
    obtain ⟨s, p⟩ := sc
    subst size
    cases s with
    | nil =>
      rw [statementFrom] at h
      obtain rfl := Except.ok.inj h
      exact ⟨_, ⟨saved, p, rfl, rfl⟩, .refl _⟩
    | cons c t =>
      by_cases semicolon : c = ';'
      · subst semicolon
        have taken := turn_semicolon t p cuts current depth fallback
        rw [statementFrom_semicolon] at h
        by_cases level : depth ≤ 0
        · rw [if_pos level] at h taken
          obtain rfl := Except.ok.inj h
          exact ⟨_, ⟨rfl, rfl⟩, .head taken (Nat.lt_succ_self _) (.refl _)⟩
        · rw [if_neg level] at h taken
          have saved' : ∀ f ∈ fallback.or (some (current.endAt p, ⟨t, p.next ';'⟩)),
              f.1.stop = f.2.place.offset := by
            intro f hf
            rcases Option.or_eq_some_iff.1 hf with hf | ⟨-, hf⟩
            · exact saved f hf
            · cases hf
              rfl
          obtain ⟨next, leads, reads⟩ := ih t.length (Nat.lt_succ_self _) h saved' rfl
          exact ⟨next, leads, .head taken (Nat.lt_succ_self _) reads⟩
      · obtain ⟨next, gs, facts, copied, step⟩ := statementFrom_copy semicolon t p
        rw [step] at h
        obtain ⟨last, leads, reads⟩ := ih _ facts.shorter h saved rfl
        exact ⟨last, leads, .head (turn_copy semicolon (copied current) cuts depth fallback)
          facts.shorter reads⟩

/-! ## What is cut off -/

/-- Glyphs stand in front of the end of what they are read from. -/
theorem offset_lt_of_mem_glyphsFrom {around : Source.Surround} {p : Position} {s : List Char}
    {g : Glyph} (h : g ∈ glyphsFrom around p s) : g.place.offset < (p.after s).offset := by
  -- a glyph stands where its text begins, or it is one of those that follow
  have cons {first : Glyph} {c : Char} {rest : List Char} {gs : List Glyph}
      (h : g ∈ first :: gs)
      (tail : g ∈ gs → g.place.offset < (first.place.after (c :: rest)).offset) :
      g.place.offset < (first.place.after (c :: rest)).offset := by
    rcases List.mem_cons.1 h with rfl | h
    · have size := c.utf8Size_pos
      rw [Position.offset_after, Source.byteLength_cons]
      omega
    · exact tail h
  fun_induction glyphsFrom around p s with
  | case1 => cases h
  | case2 p rest ih => exact cons h ih
  | case3 p rest ih => exact cons h ih
  | case4 p c rest hdash hslash hquote ih => exact cons h ih
  | case5 p c rest hdash hslash hquote hblank ih => exact cons h ih
  | case6 p c rest hdash hslash hquote hblank ih => exact cons h ih
  | case7 quote p c rest ih => exact cons h ih
  | case8 p rest ih => exact cons h ih
  | case9 p c rest hc ih => exact ih h
  | case10 p rest ih => exact ih h
  | case11 p c rest hclose ih => exact ih h

theorem collapseFrom_sublist (afterGap : Bool) (gs : List Glyph) :
    (collapseFrom afterGap gs).Sublist gs := by
  induction gs generalizing afterGap with
  | nil => exact .slnil
  | cons g gs ih =>
    rw [collapseFrom]
    split_ifs
    · exact (ih afterGap).cons g
    · exact (ih g.isGap).cons_cons g

/-- **A statement that is cut off** has something in it, all of which stands in front of its end, and
its end is farther on than the scanner was. -/
structure Cut.StandsBehind (cut : Cut) (sc : Scanner) : Prop where
  farther : sc.place.offset < cut.stop
  nonempty : cut.buffer.positions ≠ []
  within : ∀ p ∈ cut.buffer.positions, p.offset < cut.stop

theorem CutsOff.standsBehind {sc behind : Scanner} {first : List Glyph} {cut : Cut}
    (found : firstStatement? sc.glyphs = some (first, behind.glyphs))
    (h : CutsOff sc .empty first cut behind) : cut.StandsBehind sc := by
  obtain ⟨u, rest, -, read, stop, -⟩ := Source.exists_of_firstStatement? found
  obtain ⟨⟨s, text, -⟩, -⟩ := Source.terminated_of_firstStatement? (legible_glyphs sc) found
  rw [h.eq_of, Cut.of]
  refine ⟨?_, ?_, ?_⟩
  · dsimp only
    have size := (';').utf8Size_pos
    rw [stop, Position.offset_after, Source.byteLength_append, Source.byteLength_cons]
    omega
  · refine List.ne_nil_of_length_pos ?_
    have size := (';').utf8Size_pos
    rw [length_positions, text, Source.byteLength_append, Source.byteLength_cons]
    omega
  · intro p hp
    obtain ⟨g, hg, hp⟩ := List.mem_flatMap.1 hp
    obtain rfl := List.eq_of_mem_replicate hp
    have mem : g ∈ first := (collapseFrom_sublist true first).subset hg
    rw [read] at mem
    dsimp only
    rw [stop]
    exact offset_lt_of_mem_glyphsFrom mem

/-- There is a semicolon in the open in what is cut off. -/
theorem countP_glyphs_lt {sc behind : Scanner} {first : List Glyph}
    (found : firstStatement? sc.glyphs = some (first, behind.glyphs)) :
    behind.glyphs.countP (·.isCode ';') < sc.glyphs.countP (·.isCode ';') := by
  obtain ⟨w, g, rfl, split, semicolon, -⟩ :=
    Source.deeper_of_firstStatement? (legible_glyphs sc) found
  rw [split, List.countP_append, List.countP_cons, if_pos semicolon]
  omega

/-! ## Termination -/

/-- **A run that goes on from a scanner**, step by step farther. -/
structure Orderly (sc : Scanner) (moves : List Move) : Prop where
  /-- What does not go back takes at least one character. -/
  reads : ∀ here there, .read here there ∈ moves → there.rest.length < here.rest.length
  /-- A statement that the loop goes back for ends where it resumes, and stands in front of that. -/
  cuts : ∀ cut resume, .rewind cut resume ∈ moves → cut.stop = resume.place.offset ∧
    cut.buffer.positions ≠ [] ∧ ∀ p ∈ cut.buffer.positions, p.offset < resume.place.offset
  ahead : ∀ offset ∈ resumes moves, sc.place.offset < offset
  increasing : (resumes moves).Pairwise (· < ·)
  few : (resumes moves).length ≤ sc.glyphs.countP (·.isCode ';')

theorem Orderly.nil (sc : Scanner) : Orderly sc [] where
  reads here there hmem := by cases hmem
  cuts cut resume hmem := by cases hmem
  ahead offset hmem := by cases hmem
  increasing := .nil
  few := Nat.zero_le _

theorem Orderly.read {sc : Scanner} {front moves : List Move} (h : Orderly sc moves)
    (consumes : ∀ m ∈ front, m.Consumes) : Orderly sc (front ++ moves) where
  reads here there hmem := by
    rcases List.mem_append.1 hmem with hmem | hmem
    · exact consumes _ hmem
    · exact h.reads here there hmem
  cuts cut resume hmem := by
    rcases List.mem_append.1 hmem with hmem | hmem
    · cases consumes _ hmem
    · exact h.cuts cut resume hmem
  ahead := by
    rw [resumes_append_of_consumes consumes]
    exact h.ahead
  increasing := by
    rw [resumes_append_of_consumes consumes]
    exact h.increasing
  few := by
    rw [resumes_append_of_consumes consumes]
    exact h.few

theorem Orderly.ended {sc behind : Scanner} {moves : List Move} (h : Orderly behind moves)
    (farther : sc.place.offset < behind.place.offset)
    (fewer : behind.glyphs.countP (·.isCode ';') < sc.glyphs.countP (·.isCode ';')) :
    Orderly sc moves where
  reads := h.reads
  cuts := h.cuts
  ahead offset hmem := Nat.lt_trans farther (h.ahead offset hmem)
  increasing := h.increasing
  few := Nat.le_trans h.few (Nat.le_of_lt fewer)

theorem Orderly.rewind {sc behind : Scanner} {cut : Cut} {moves : List Move}
    (h : Orderly behind moves) (stop : cut.stop = behind.place.offset)
    (stands : cut.StandsBehind sc)
    (fewer : behind.glyphs.countP (·.isCode ';') < sc.glyphs.countP (·.isCode ';')) :
    Orderly sc (.rewind cut behind :: moves) where
  reads here there hmem := by
    rcases List.mem_cons.1 hmem with hmem | hmem
    · cases hmem
    · exact h.reads here there hmem
  cuts cut' resume hmem := by
    rcases List.mem_cons.1 hmem with hmem | hmem
    · cases hmem
      exact ⟨stop, stands.nonempty, stop ▸ stands.within⟩
    · exact h.cuts cut' resume hmem
  ahead := by
    have farther := stands.farther
    rw [stop] at farther
    exact List.forall_mem_cons.2
      ⟨farther, fun offset hmem => Nat.lt_trans farther (h.ahead offset hmem)⟩
  increasing := List.pairwise_cons.2 ⟨h.ahead, h.increasing⟩
  few := Nat.le_trans (Nat.succ_le_succ h.few) fewer

/-- A statement is begun with nothing to go back to, and what is read of it leads to its end. -/
theorem exists_readsTo_fresh {sc : Scanner} {outcome : Outcome}
    (h : statementFrom sc .empty 0 none = .ok outcome) (cuts : List Cut) :
    ∃ next, outcome.Leads cuts next ∧ ReadsTo (.fresh sc cuts) next :=
  exists_readsTo h (fun f hf => by cases hf) cuts

/-- **The loop reaches its end** from every place of a source, with the statements that are there. -/
theorem exists_runs (sc : Scanner) (cuts : List Cut) :
    ∃ moves found, statementsFrom sc = .ok found ∧
      Runs (.fresh sc cuts) moves (cuts ++ found) ∧ Orderly sc moves := by
  induction size : sc.rest.length using Nat.strongRecOn generalizing sc cuts with
  | ind k ih =>
    subst size
    rw [statementsFrom]
    obtain ⟨first, cut, behind, first?, cutsOff, result⟩ | ⟨none?, depth, fallback, level, result⟩ :=
      statementFrom_cases sc
    · have stands := cutsOff.standsBehind first?
      have fewer := countP_glyphs_lt first?
      obtain ⟨moves, found, cutOff, runs, orderly⟩ :=
        ih _ cutsOff.shorter behind (cuts ++ [cut]) rfl
      rw [List.append_assoc, List.singleton_append] at runs
      rcases result with result | ⟨left, depth, stop, inside, result⟩
      · obtain ⟨next, ⟨ends, rfl⟩, front, consumes, reads⟩ := exists_readsTo_fresh result cuts
        have farther := stands.farther
        rw [ends] at farther
        refine ⟨front ++ moves, cut :: found, ?_, reads _ _ runs,
          (orderly.ended farther fewer).read consumes⟩
        rw [follow_eq result]
        dsimp only
        rw [cutOff]
        rfl
      · obtain ⟨next, ⟨saved, p, -, rfl⟩, front, consumes, reads⟩ :=
          exists_readsTo_fresh result cuts
        have back : Loop.turn ⟨⟨[], p⟩, cuts, left, depth, some (cut, behind)⟩
            = .ok (.rewinds cut (.fresh behind (cuts ++ [cut]))) := if_pos inside
        refine ⟨front ++ .rewind cut behind :: moves, cut :: found, ?_,
          reads _ _ (.rewinds back runs),
          (orderly.rewind (saved _ rfl) stands fewer).read consumes⟩
        rw [follow_eq result]
        dsimp only
        rw [if_pos inside, cutOff]
        rfl
    · obtain ⟨next, ⟨-, p, stop, rfl⟩, front, consumes, reads⟩ := exists_readsTo_fresh result cuts
      have last : Loop.turn ⟨⟨[], p⟩, cuts, Buffer.empty.lay sc.glyphs, depth, fallback⟩
          = .ok (.ends (cuts ++ lastCut (Buffer.empty.lay sc.glyphs)
              (sc.place.offset + byteLength sc.rest))) := by
        rw [← stop]
        cases fallback with
        | none => rfl
        | some saved => exact if_neg (Int.not_lt.2 (level rfl))
      refine ⟨front ++ [], _, ?_, reads _ _ (.ends last), (Orderly.nil sc).read consumes⟩
      rw [follow_eq result]
      cases fallback with
      | none => rfl
      | some saved => exact if_neg (Int.not_lt.2 (level rfl))

/-- **The loop terminates although it goes back.** For every source it has one run, which reaches
the end with the statements of the source. A turn that does not go back takes at least one character.
One that goes back cuts off a statement that stands in front of where it resumes, and it resumes
farther on than all that went back before; so there are no more of them than semicolons outside of
quotes and comments. -/
theorem statements_terminate (source : List Char) :
    ∃ moves cuts, Runs (.start source) moves cuts ∧ statements source = .ok cuts ∧
      (∀ moves' cuts', Runs (.start source) moves' cuts' → moves' = moves ∧ cuts' = cuts) ∧
      (∀ here there, .read here there ∈ moves → there.rest.length < here.rest.length) ∧
      (∀ cut resume, .rewind cut resume ∈ moves →
        cut.stop = resume.place.offset ∧ cut.buffer.positions ≠ [] ∧
          ∀ p ∈ cut.buffer.positions, p.offset < resume.place.offset) ∧
      (resumes moves).Pairwise (· < ·) ∧
      (resumes moves).length ≤ (Source.glyphs source).countP (·.isCode ';') := by
  obtain ⟨moves, cuts, found, runs, orderly⟩ := exists_runs (.start source) []
  exact ⟨moves, cuts, runs, found, fun _ _ other => runs.unique other, orderly.reads, orderly.cuts,
    orderly.increasing, orderly.few⟩

end StoredRoutine.Bytewise
