import StoredRoutine.Driver.Rehearsal
import StoredRoutine.Proofs.Session.Ownership

/-!
# The discipline of placeholders

A driver hands out placeholders and relies on getting every one of them back: released once, not
used after that, and not used before it was handed out. `Disciplined` says so of a trace.

* `disciplined_trace`: an execution in which no release is refused is disciplined, whatever else
  is refused.
* `allocated_le_released_iff`: if releases can be refused, everything is still asked to be
  released exactly if none but the last release of the clean-up is refused.
-/

namespace StoredRoutine

variable {S P L C : Type}

/-- **The discipline of placeholders.** -/
structure Disciplined (t : Trace S P L C) : Prop where
  /-- Whatever is allocated is released, and as often as it is allocated. -/
  released_eq_allocated : released t = allocated t
  /-- What a request mentions was allocated before it and has not been released since. -/
  mentions_in_hand : ∀ before e after, t = before ++ e :: after →
    (e.request.placeholders : Multiset P) + released before ≤ allocated before
  /-- After a release there is nothing but releases. -/
  releases_last : t.Pairwise fun e later => e.request.isRelease → later.request.isRelease

/-! ## Clean-up -/

section CleanUp

variable (d : Driver S P L C) (s : S)

/-- What is not even asked to be released when placeholders are released in order: whatever comes
after the first that is refused. -/
def Driver.unreleased (d : Driver S P L C) : List P → S → List P
  | [], _ => []
  | p :: rest, s =>
    match d.answer (.release p) s with
    | (.ok _, after) => d.unreleased rest after
    | (.error _, _) => rest

/-- When the placeholders are released in order, one that is not the last is refused. -/
def Driver.RefusesEarly (d : Driver S P L C) (ps : List P) (s : S) : Prop :=
  ∃ first p rest after e, ps = first ++ p :: rest ∧ rest ≠ [] ∧
    (d.releaseAll first).run.run s = (.ok (), after) ∧ (d.answer (.release p) after).1 = .error e

theorem run_releaseAll_of_granted {p : P} {s after : S} (rest : List P)
    (h : d.answer (.release p) s = (.ok (), after)) :
    (d.releaseAll (p :: rest)).run.run s = (d.releaseAll rest).run.run after := by
  have hask : (d.ask (.release p)).run.run s = (.ok (), after) := h
  simp only [Driver.releaseAll, ExceptT.run_bind, StateT.run_bind, hask]
  rfl

theorem run_releaseAll_of_refused {p : P} {s after : S} {e : Error} (rest : List P)
    (h : d.answer (.release p) s = (.error e, after)) :
    (d.releaseAll (p :: rest)).run.run s = (.error e, after) := by
  have hask : (d.ask (.release p)).run.run s = (.error e, after) := h
  simp only [Driver.releaseAll, ExceptT.run_bind, StateT.run_bind, hask]
  rfl

theorem unreleased_ne_nil_iff (ps : List P) : d.unreleased ps s ≠ [] ↔ d.RefusesEarly ps s := by
  induction ps generalizing s with
  | nil => simp [Driver.unreleased, Driver.RefusesEarly]
  | cons p rest ih =>
    rw [Driver.unreleased]
    rcases hanswer : d.answer (.release p) s with ⟨_ | _, after⟩
    · next e =>
      refine ⟨fun h => ⟨[], p, rest, s, e, rfl, h, rfl, by rw [hanswer]⟩, ?_⟩
      rintro ⟨first, q, others, later, f, heq, hothers, hrun, -⟩
      cases first with
      | nil =>
        obtain ⟨rfl, rfl⟩ : p = q ∧ rest = others := by simpa using heq
        exact hothers
      | cons _ first =>
        -- nothing is released after a refusal
        obtain ⟨rfl, rfl⟩ := List.cons.inj heq
        rw [run_releaseAll_of_refused d first hanswer] at hrun
        cases hrun
    · refine (ih after).trans ⟨?_, ?_⟩
      · rintro ⟨first, q, others, later, f, rfl, hothers, hrun, hrefused⟩
        refine ⟨p :: first, q, others, later, f, rfl, hothers, ?_, hrefused⟩
        rw [run_releaseAll_of_granted d first hanswer]
        exact hrun
      · rintro ⟨first, q, others, later, f, heq, hothers, hrun, hrefused⟩
        cases first with
        | nil =>
          obtain ⟨rfl, rfl⟩ : p = q ∧ rest = others := by simpa using heq
          obtain rfl : s = later := congrArg Prod.snd hrun
          rw [hanswer] at hrefused
          cases hrefused
        | cons _ first =>
          obtain ⟨rfl, rfl⟩ := List.cons.inj heq
          rw [run_releaseAll_of_granted d first hanswer] at hrun
          exact ⟨first, q, others, later, f, rfl, hothers, hrun, hrefused⟩

/-- The clean-up asks for releases and nothing else, and keeps what it does not come to. -/
theorem records_releaseAll (ps : List P) :
    Records (d.recorded.releaseAll ps).run (d.releaseAll ps).run s fun u _ =>
      Orderly (ps : Multiset P) u ↑(d.unreleased ps s) ∧ (∀ e ∈ u, e.request.isRelease) ∧
        ((∀ e ∈ u, e.isRefused = false) → d.unreleased ps s = []) := by
  induction ps generalizing s with
  | nil => exact .pure ⟨.nil _, by simp, fun _ => rfl⟩
  | cons p rest ih =>
    have hcons : ((p :: rest : List P) : Multiset P) = {p} + ↑rest := rfl
    rw [hcons]
    simp only [Driver.releaseAll]
    refine .bind_session (.ask d _) ?_ ?_
    · rintro u e ⟨rfl, he⟩
      have hleft : d.unreleased (p :: rest) s = rest := by
        rw [Driver.unreleased]
        split
        · next h => simp [h] at he
        · rfl
      rw [hleft]
      refine ⟨.release _ _ _ _, by simp [Request.isRelease, Request.phase], fun h => ?_⟩
      simpa [Event.isRefused] using h _ List.mem_cons_self
    · rintro u _ after hrun ⟨rfl, -⟩
      have hleft : d.unreleased (p :: rest) s = d.unreleased rest after := by
        have hanswer : d.answer (.release p) s = (.ok (), after) := hrun
        rw [Driver.unreleased, hanswer]
      rw [hleft]
      refine (ih after).mono ?_
      rintro v _ ⟨hv, hreleases, hgranted⟩
      refine ⟨?_, ?_, ?_⟩
      · exact .append (.release _ _ _ _) hv
      · intro e he
        rcases List.mem_cons.mp he with rfl | he
        · rfl
        · exact hreleases e he
      · exact fun h => hgranted fun e he => h e (List.mem_cons_of_mem _ he)

end CleanUp

section Execution

variable {d : Driver S P L C} (hd : d.KeepsBinds) (m : CallModel) (inputs : List Value) (s : S)

include hd

/-- **The whole execution.** It has in hand at the end what its clean-up does not come to. -/
theorem records_execute (h : inputs.length = m.inputArity) :
    Records (d.recorded.execute m inputs).run (d.execute m inputs).run s fun u _ =>
      let called := (d.call m inputs).run s
      Orderly 0 u ↑(d.unreleased called.1.2 called.2) ∧ ReleasesLast u ∧
        ((∀ e ∈ u, e.request.isRelease → e.isRefused = false) →
          d.unreleased called.1.2 called.2 = []) := by
  rw [Driver.run_execute _ h, Driver.run_execute _ h]
  refine (records_call hd s m inputs).bind fun u r after hrun hcall => ?_
  obtain ⟨outcome, held⟩ := r
  rw [hrun]
  obtain ⟨hcalled, hlast⟩ := hcall
  refine (records_releaseAll d after held).bind fun v released later _ hclean => .pure ?_
  obtain ⟨hreleased, hreleases, hgranted⟩ := hclean
  rw [List.append_nil]
  refine ⟨hcalled.append hreleased, ?_, fun hall => ?_⟩
  -- the clean-up is releases only, so it can follow anything
  · refine List.pairwise_append.mpr ⟨hlast, ?_, fun e _ later hlater _ => hreleases later hlater⟩
    exact List.pairwise_of_forall_mem_list fun e _ later hlater _ => hreleases later hlater
  · exact hgranted fun e he => hall e (List.mem_append_right _ he) (hreleases e he)

end Execution

/-! ## Main statements -/

/-- A rehearsal that replaces no binds leaves them in place. -/
theorem Rehearsal.keepsBinds {plan : Rehearsal.Plan} (h : plan.replaced = []) :
    (Rehearsal.driver plan).KeepsBinds := by
  obtain ⟨refused, reads, replaced⟩ := plan
  obtain rfl : replaced = [] := h
  constructor
  · intro name binds s left hanswer
    simp only [Rehearsal.driver] at hanswer
    split at hanswer
    · cases hanswer
    · cases hanswer
      rfl
  · intro name returns binds s left hanswer
    simp only [Rehearsal.driver] at hanswer
    split at hanswer
    · cases hanswer
    · cases hanswer
      rfl

/-- **Every placeholder is given back, once and in time.** On a driver that leaves the binds in
place, an execution in which no release is refused keeps the discipline of placeholders: whichever
other requests are refused, whatever the reads find, and however many inputs there are. -/
theorem disciplined_trace {d : Driver S P L C} (hd : d.KeepsBinds) (m : CallModel)
    (inputs : List Value) (s : S)
    (hreleases : ∀ e ∈ d.trace m inputs s, e.request.isRelease → e.isRefused = false) :
    Disciplined (d.trace m inputs s) := by
  by_cases h : inputs.length = m.inputArity
  · obtain ⟨horderly, hlast, hgranted⟩ := (records_execute hd m inputs s h).trace
    rw [hgranted hreleases] at horderly
    refine ⟨?_, fun before e after heq => ?_, hlast⟩
    · simpa using horderly.balance
    · simpa using horderly.mentions before e after heq
  -- with a wrong number of inputs nothing is asked for
  · have hnone : Records (d.recorded.execute m inputs).run (d.execute m inputs).run s
        fun u _ => u = [] := by
      rw [Driver.run_execute_of_ne _ h, Driver.run_execute_of_ne _ h]
      exact .pure rfl
    rw [hnone.trace]
    exact ⟨rfl, fun before e after heq => by simp at heq, .nil⟩

/-- A function whose second argument cannot be seeded. -/
theorem disciplined_trace_of_refused_seed :
    let a : Binding := ⟨⟨"a", .out, true, "number", none⟩, "NUMBER", .scalar,
      .forParameter .scalar .out⟩
    let b : Binding := ⟨⟨"b", .inOut, true, "clob", none⟩, "CLOB", .largeObject,
      .forParameter .largeObject .inOut⟩
    let returned : Binding := ⟨CallModel.returnArgument "number", "NUMBER", .scalar,
      .forParameter .scalar .out⟩
    let m : CallModel := ⟨"F", [a, b], some returned, .function "F" [a.argument, b.argument] "number"⟩
    let d := Rehearsal.driver ⟨[2], [], []⟩
    d.KeepsBinds ∧
      (∀ e ∈ d.trace m [.text "x"] .empty, e.request.isRelease → e.isRefused = false) ∧
      (d.trace m [.text "x"] .empty).map Event.request =
        [.allocate "NUMBER" .scalar, .allocate "CLOB" .largeObject, .seed 1 (.text "x"),
          .release 1, .release 0] ∧
      Disciplined (d.trace m [.text "x"] .empty) := by
  intro a b returned m d
  have hd : d.KeepsBinds := Rehearsal.keepsBinds rfl
  have hreleases : ∀ e ∈ d.trace m [.text "x"] .empty, e.request.isRelease →
      e.isRefused = false := by decide
  exact ⟨hd, hreleases, by decide, disciplined_trace hd m _ _ hreleases⟩

/-- **What a refused release leaves behind.** A request to release every placeholder that was
allocated is made exactly if no placeholder but the last is refused at the end of the call. The
clean-up stops at a refusal, and does not come to the placeholders after it. -/
theorem allocated_le_released_iff {d : Driver S P L C} (hd : d.KeepsBinds) (m : CallModel)
    (inputs : List Value) (s : S) (h : inputs.length = m.inputArity) :
    let called := (d.call m inputs).run s
    allocated (d.trace m inputs s) ≤ released (d.trace m inputs s) ↔
      ¬ d.RefusesEarly called.1.2 called.2 := by
  intro called
  have horderly : Orderly 0 (d.trace m inputs s) ↑(d.unreleased called.1.2 called.2) :=
    (records_execute hd m inputs s h).trace.1
  have hbalance := horderly.balance
  rw [zero_add] at hbalance
  rw [← unreleased_ne_nil_iff, not_ne_iff, ← hbalance]
  constructor
  · intro hle
    -- what is in hand at the end is what the two sides differ in
    have hcard := Multiset.card_le_card hle
    rw [Multiset.card_add, Multiset.coe_card] at hcard
    exact List.eq_nil_of_length_eq_zero (by omega)
  · intro hnil
    rw [hnil, Multiset.coe_nil, add_zero]

/-- A procedure with two results, of which the first cannot be released: nobody asks for the
second. -/
theorem leak_of_refused_release :
    let a : Binding := ⟨⟨"a", .out, true, "number", none⟩, "NUMBER", .scalar,
      .forParameter .scalar .out⟩
    let b : Binding := ⟨⟨"b", .out, true, "number", none⟩, "NUMBER", .scalar,
      .forParameter .scalar .out⟩
    let m : CallModel := ⟨"P", [a, b], none, .procedure "P" [a.argument, b.argument]⟩
    let d := Rehearsal.driver ⟨[5], [.value (.int 1), .value (.int 2)], []⟩
    d.KeepsBinds ∧ ([] : List Value).length = m.inputArity ∧
      allocated (d.trace m [] .empty) = {0, 1} ∧ released (d.trace m [] .empty) = {0} ∧
      ¬ allocated (d.trace m [] .empty) ≤ released (d.trace m [] .empty) := by
  intro a b m d
  have hd : d.KeepsBinds := Rehearsal.keepsBinds rfl
  refine ⟨hd, rfl, by decide, by decide, fun hle => ?_⟩
  have hrefused : d.RefusesEarly [0, 1] ((d.call m []).run .empty).2 :=
    ⟨[], 0, [1], _, Rehearsal.fault 5, rfl, by decide, rfl, rfl⟩
  exact (allocated_le_released_iff hd m [] .empty rfl).mp hle hrefused

end StoredRoutine
