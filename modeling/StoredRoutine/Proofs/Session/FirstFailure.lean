import StoredRoutine.Proofs.Session.Dialogue
import StoredRoutine.Proofs.Session.Discipline

/-!
# Which failure is reported

One execution can fail in many places: every request can be refused, every read can find what
does not suit the result it is for, and the clean-up that follows a failure can fail in turn. The
`failures` of a trace are all of these, in order.

An execution ends in an error exactly if there are failures, and the error it reports is the first
of them (`reports_first_failure`). There is one exception. A placeholder that cannot be seeded is
released at once, before the rest of the clean-up, and if this release is refused (`SeedUncleaned`),
its error is reported in place of the one that came first.

Which error is reported is said of a trace alone (`Reported`), and each function of the executor
keeps to it (`Reports`), whatever is asked for after it.
-/

namespace StoredRoutine

variable {S P L C : Type} {α : Type}

/-! ## Failures -/

/-- The error for what is found and does not suit the family of a result. -/
def Binding.mismatch (b : Binding) (found : Fetched L C) : Error :=
  .ofCause (.protocolMismatch b.name b.family found.kindName)

/-- What goes wrong with a request: it is refused, or it is a read for the given result and what
it finds does not suit that. -/
def Event.failure? (result? : Option Binding) : Event S P L C → Option Error
  | ⟨_, _, .error e⟩ => some e
  | ⟨_, .read _, .ok found⟩ =>
    result?.bind fun b => if b.family.admits found then none else some (b.mismatch found)
  | _ => none

/-- **What goes wrong in a trace**, in order, where the reads are for the results, one after the
other. -/
def failures : List Binding → Trace S P L C → List Error
  | _, [] => []
  | results, e :: rest =>
    (e.failure? results.head?).toList ++ failures (results.drop (fetched [e]).length) rest

@[simp] theorem failures_nil (results : List Binding) :
    failures results ([] : Trace S P L C) = [] := rfl

@[simp] theorem failures_cons (results : List Binding) (e : Event S P L C)
    (rest : Trace S P L C) :
    failures results (e :: rest) =
      (e.failure? results.head?).toList ++ failures (results.drop (fetched [e]).length) rest := rfl

/-- What goes wrong in two parts of a trace, of which the second has the results that are left to
be read. -/
theorem failures_append (results : List Binding) (t u : Trace S P L C) :
    failures results (t ++ u) =
      failures results t ++ failures (results.drop (fetched t).length) u := by
  induction t generalizing results with
  | nil => rfl
  | cons e t ih =>
    have hfetched : fetched (e :: t) = fetched [e] ++ fetched t := fetched_append [e] t
    rw [List.cons_append, failures_cons, failures_cons, ih, hfetched, List.length_append,
      List.drop_drop, List.append_assoc]

/-! ## The error that is reported -/

/-- The error `e` is reported for the trace: that of the first failure, or if this is a
placeholder that cannot be seeded and cannot be released either, that of the release. -/
inductive Reported : List Binding → Trace S P L C → Error → Prop where
  /-- Anything but a seed that goes wrong is reported. -/
  | failure {results : List Binding} {ev : Event S P L C} {e : Error} (rest : Trace S P L C)
    (hseed : ∀ p v, ev.request ≠ .seed p v) (h : ev.failure? results.head? = some e) :
    Reported results (ev :: rest) e
  /-- A seed that is refused is reported if its placeholder can be released. -/
  | seed (results : List Binding) (s s' : S) (p : P) (v : Value) (e : Error)
    (rest : Trace S P L C) :
    Reported results (⟨s, .seed p v, .error e⟩ :: ⟨s', .release p, .ok ()⟩ :: rest) e
  /-- Otherwise the release is reported. -/
  | release (results : List Binding) (s s' : S) (p : P) (v : Value) (e f : Error)
    (rest : Trace S P L C) :
    Reported results (⟨s, .seed p v, .error e⟩ :: ⟨s', .release p, .error f⟩ :: rest) f
  /-- What goes well is passed over. -/
  | later {results : List Binding} {ev : Event S P L C} {rest : Trace S P L C} {e : Error}
    (h : ev.failure? results.head? = none)
    (hrest : Reported (results.drop (fetched [ev]).length) rest e) :
    Reported results (ev :: rest) e

/-- The first failure is that a placeholder cannot be seeded, and the release of the placeholder
is refused with the error `f`. -/
def SeedUncleaned (results : List Binding) (t : Trace S P L C) (f : Error) : Prop :=
  ∃ before s s' p v e after,
    t = before ++ ⟨s, .seed p v, .error e⟩ :: ⟨s', .release p, .error f⟩ :: after ∧
    failures results before = []

namespace Reported

variable {results : List Binding} {t u : Trace S P L C} {e f : Error}

/-- What comes behind the failure does not matter. -/
theorem append_right (h : Reported results t e) (u : Trace S P L C) :
    Reported results (t ++ u) e := by
  induction h with
  | failure rest hseed h => exact .failure _ hseed h
  | seed => exact .seed ..
  | release => exact .release ..
  | later h _ ih => exact .later h ih

/-- What goes well in front of it does not matter, either. -/
theorem append_left (ht : failures results t = [])
    (h : Reported (results.drop (fetched t).length) u e) : Reported results (t ++ u) e := by
  induction t generalizing results with
  | nil => exact h
  | cons ev t ih =>
    have hfetched : fetched (ev :: t) = fetched [ev] ++ fetched t := fetched_append [ev] t
    rw [failures_cons, List.append_eq_nil_iff, Option.toList_eq_nil_iff] at ht
    rw [hfetched, List.length_append, ← List.drop_drop] at h
    exact .later ht.1 (ih ht.2 h)

/-- What is reported is the first failure, with the one exception. -/
theorem head?_or_seedUncleaned (h : Reported results t e) :
    (failures results t).head? = some e ∨ SeedUncleaned results t e := by
  induction h with
  | failure rest hseed h => exact .inl (by rw [failures_cons, h]; rfl)
  | seed => exact .inl rfl
  | release results s s' p v e f rest =>
    exact .inr ⟨[], s, s', p, v, e, rest, rfl, rfl⟩
  | @later results ev rest e h hrest ih =>
    rcases ih with ih | ⟨before, s, s', p, v, f, after, rfl, hbefore⟩
    · exact .inl (by rw [failures_cons, h]; exact ih)
    · refine .inr ⟨ev :: before, s, s', p, v, f, after, rfl, ?_⟩
      rw [failures_cons, h, hbefore]
      rfl

/-- Behind an event in which nothing goes wrong the same error is reported. -/
theorem of_later {ev : Event S P L C} (hnone : ev.failure? results.head? = none)
    (h : Reported results (ev :: t) e) : Reported (results.drop (fetched [ev]).length) t e := by
  cases h with
  | failure _ _ hsome =>
    rw [hnone] at hsome
    cases hsome
  | seed => cases hnone
  | release => cases hnone
  | later _ hrest => exact hrest

/-- The exception leaves no choice. -/
theorem eq_of_seedUncleaned (h : Reported results t e) (hseed : SeedUncleaned results t f) :
    e = f := by
  obtain ⟨before, s, s', p, v, first, after, rfl, hbefore⟩ := hseed
  induction before generalizing results with
  | nil =>
    cases h with
    | failure _ hne _ => exact absurd rfl (hne p v)
    | release => rfl
    | later hnone _ => cases hnone
  | cons ev before ih =>
    rw [failures_cons, List.append_eq_nil_iff, Option.toList_eq_nil_iff] at hbefore
    exact ih hbefore.2 (h.of_later hbefore.1)

theorem failures_ne_nil (h : Reported results t e) : failures results t ≠ [] := by
  rcases h.head?_or_seedUncleaned with hhead | ⟨before, s, s', p, v, first, after, rfl, -⟩
  · intro hnil
    rw [hnil] at hhead
    cases hhead
  · rw [failures_append]
    exact List.append_ne_nil_of_right_ne_nil _ (List.cons_ne_nil _ _)

end Reported

/-- The result is what the trace should be reported as: a success if nothing went wrong. -/
def Reports (results : List Binding) (t : Trace S P L C) : Except Error α → Prop
  | .ok _ => failures results t = []
  | .error e => Reported results t e

/-- Behind a part in which nothing went wrong, the rest is reported. -/
theorem Reports.append {results : List Binding} {t u : Trace S P L C} {r : Except Error α}
    (ht : failures results t = []) (h : Reports (results.drop (fetched t).length) u r) :
    Reports results (t ++ u) r := by
  cases r with
  | ok a =>
    have hu : failures (results.drop (fetched t).length) u = [] := h
    rw [Reports, failures_append, ht, hu]
    rfl
  | error e => exact Reported.append_left ht h

/-- A request that is refused, and is no seed, is reported. -/
theorem Reported.refused (results : List Binding) (s : S) {r : Request P L}
    (h : ∀ p v, r ≠ .seed p v) (e : Error) :
    Reported results [(⟨s, r, .error e⟩ : Event S P L C)] e := .failure [] h rfl

/-! ## Prepare -/

section Executor

variable (d : Driver S P L C) (s : S) (results : List Binding)

theorem records_seed_reports (p : P) (v : Value) :
    Records
      (tryCatch (d.recorded.ask (.seed p v)) fun e => do
        d.recorded.ask (.release p)
        throw e : Session (S × Trace S P L C) Unit).run
      (tryCatch (d.ask (.seed p v)) fun e => do
        d.ask (.release p)
        throw e : Session S Unit).run s fun u r => Reports results u r ∧ fetched u = [] := by
  refine .attempt (.ask d _) ?_ ?_
  · rintro u a ⟨rfl, -⟩
    exact ⟨rfl, rfl⟩
  · rintro u e after - ⟨rfl, -⟩
    refine .bind_session (.ask d _) ?_ ?_
    · rintro v f ⟨rfl, -⟩
      exact ⟨.release .., rfl⟩
    · rintro v a later - ⟨rfl, -⟩
      exact .pure ⟨.seed .., rfl⟩

theorem records_prepare_reports (b : Binding) (input : Value) :
    Records (d.recorded.prepare b input).run (d.prepare b input).run s fun u r =>
      Reports results u r ∧ fetched u = [] := by
  have hrefused : ∀ e : Error, Reported results
      [(⟨s, .allocate b.token b.family, .error e⟩ : Event S P L C)] e :=
    Reported.refused results s (by simp)
  unfold Driver.prepare
  cases b.strategy.prepare with
  | passValue => exact .pure ⟨rfl, rfl⟩
  | allocate =>
    refine .bind_session (.ask d _) ?_ ?_
    · rintro u e ⟨rfl, -⟩
      exact ⟨hrefused e, rfl⟩
    · rintro u p after - ⟨rfl, -⟩
      exact .pure ⟨rfl, rfl⟩
  | allocateAndSeed =>
    refine .bind_session (.ask d _) ?_ ?_
    · rintro u e ⟨rfl, -⟩
      exact ⟨hrefused e, rfl⟩
    · rintro u p after - ⟨rfl, -⟩
      refine .bind_session (records_seed_reports d after results p input) ?_ ?_
      · rintro v e ⟨h, hfetched⟩
        exact ⟨.later rfl h, by rw [fetched_append, hfetched]; rfl⟩
      · rintro v a later - ⟨h, hfetched⟩
        refine .pure ?_
        rw [List.append_nil]
        exact ⟨h, by rw [fetched_append, hfetched]; rfl⟩

/-- **Preparing the arguments** reports the first that cannot be prepared, and reads nothing. -/
theorem records_prepareAll_reports (bindings : List Binding) (inputs : List Value) :
    Records (d.recorded.prepareAll bindings inputs) (d.prepareAll bindings inputs) s fun u r =>
      Reports results u r.2 ∧ fetched u = [] := by
  induction bindings generalizing inputs s with
  | nil => exact .pure ⟨rfl, rfl⟩
  | cons b rest ih =>
    simp only [Driver.prepareAll]
    generalize (if b.takesInput then (inputs.head?.getD .null, inputs.tail)
      else (.null, inputs)) = next
    obtain ⟨input, others⟩ := next
    refine (records_prepare_reports d s results b input).bind fun u r after _ hr => ?_
    cases r with
    | error e =>
      refine .pure ?_
      rw [List.append_nil]
      exact hr
    | ok bind =>
      refine (ih after others).bind fun v r later _ hr' => .pure ?_
      obtain ⟨hu, hfetched⟩ := hr
      obtain ⟨hv, hfetched'⟩ := hr'
      rw [List.append_nil, fetched_append, hfetched, hfetched']
      refine ⟨.append hu ?_, rfl⟩
      rw [hfetched]
      exact hv

/-! ## Extract -/

/-- **Extracting a result** makes one read, and reports what that finds if it does not suit. -/
theorem records_extract_reports {b : Binding} (hb : b.Resolved)
    (houtput : b.producesOutput = true) (p : P) :
    Records (d.recorded.extract b p).run (d.extract b p).run s fun u r =>
      Reports (b :: results) u r ∧ ((∃ output, r = .ok output) → (fetched u).length = 1) := by
  rw [hb.extract_eq d.recorded houtput, hb.extract_eq d houtput]
  refine .bind_session (.ask d _) ?_ ?_
  · rintro u e ⟨rfl, -⟩
    exact ⟨.refused _ s (by simp) e, by simp⟩
  · rintro u found after - ⟨rfl, -⟩
    cases hadmits : b.family.admits found with
    | false =>
      have hmismatch : Reported (b :: results)
          [(⟨s, .read p, .ok found⟩ : Event S P L C)] (b.mismatch found) :=
        .failure [] (by simp) (by simp [Event.failure?, hadmits])
      exact .pure ⟨hmismatch, by simp⟩
    | true =>
      have hread : failures (b :: results) [(⟨s, .read p, .ok found⟩ : Event S P L C)] = [] := by
        simp [Event.failure?, hadmits]
      cases found with
      | value v => exact .pure ⟨hread, fun _ => rfl⟩
      | locator l =>
        refine .bind_session (.ask d _) ?_ ?_
        · rintro v e ⟨rfl, -⟩
          exact ⟨.append_left hread (.refused _ after (by simp) e), by simp⟩
        · rintro v content later - ⟨rfl, -⟩
          exact .pure ⟨.append (r := .ok _) hread rfl, fun _ => rfl⟩
      | cursor c => exact .pure ⟨hread, fun _ => rfl⟩

/-- **Extracting the outputs** reports the first that cannot be extracted. -/
theorem records_extractAll_reports {parts : List (Part P)}
    (hresolved : ∀ part ∈ parts, part.binding.Resolved) (hapt : ∀ part ∈ parts, part.Apt) :
    Records (d.recorded.extractAll (parts.map fun part => (part.binding, part.bind))).run
      (d.extractAll (parts.map fun part => (part.binding, part.bind))).run s fun u r =>
        Reports ((parts.filterMap Part.slot?).map (·.binding)) u r := by
  induction parts generalizing s with
  | nil => exact .pure rfl
  | cons part rest ih =>
    obtain ⟨hb, hrest⟩ := List.forall_mem_cons.mp hresolved
    obtain ⟨hpart, happts⟩ := List.forall_mem_cons.mp hapt
    obtain ⟨b, input, placeholder?⟩ := part
    simp only [List.map_cons, Driver.extractAll, hb.extract_eq_nothing_iff]
    cases placeholder? with
    | none =>
      have houtput : b.producesOutput = false := Eq.symm hpart
      rw [if_pos houtput, if_pos houtput]
      exact ih s hrest happts
    | some p =>
      have houtput : b.producesOutput = true := Eq.symm hpart
      have hne : ¬ b.producesOutput = false := by simp [houtput]
      have hslots : ((⟨b, input, some p⟩ :: rest : List (Part P)).filterMap Part.slot?).map
          (·.binding) = b :: (rest.filterMap Part.slot?).map (·.binding) := rfl
      rw [if_neg hne, if_neg hne, hslots]
      refine .bind_session (records_extract_reports d s
        ((rest.filterMap Part.slot?).map (·.binding)) hb houtput p) ?_ ?_
      · exact fun u e h => h.1
      · rintro u output after - ⟨hu, hlength⟩
        have hdrop : ∀ results : List Binding,
            (b :: results).drop (fetched u).length = results := by
          intro results
          rw [hlength ⟨output, rfl⟩]
          rfl
        refine .bind_session (ih after hrest happts) ?_ ?_
        · exact fun v e h => .append_left hu (by rw [hdrop]; exact h)
        · rintro v outputs later - hv
          refine .pure (.append (r := .ok _) hu ?_)
          rw [List.append_nil, hdrop]
          exact hv

/-! ## Release -/

theorem records_releaseAll_reports (ps : List P) :
    Records (d.recorded.releaseAll ps).run (d.releaseAll ps).run s fun u r =>
      Reports results u r := by
  induction ps generalizing s with
  | nil => exact .pure rfl
  | cons p rest ih =>
    simp only [Driver.releaseAll]
    refine .bind_session (.ask d _) ?_ ?_
    · rintro u e ⟨rfl, -⟩
      exact .refused results s (by simp) e
    · rintro u _ after - ⟨rfl, -⟩
      exact (ih after).mono fun v r h => .append (t := [_]) rfl h

/-! ## Call -/

section Call

variable {m : CallModel} {parts : List (Part P)} (harguments : parts.map (·.binding) = m.arguments)
  (hresolved : ∀ b ∈ m.arguments, b.Resolved) (hapt : ∀ part ∈ parts, part.Apt)

include harguments hresolved hapt

theorem records_extractAll_zip_reports :
    Records (d.recorded.extractAll (m.arguments.zip (parts.map Part.bind))).run
      (d.extractAll (m.arguments.zip (parts.map Part.bind))).run s fun u r =>
        Reports m.outputs u r := by
  have houtputs : (parts.filterMap Part.slot?).map (·.binding) = m.outputs := by
    rw [Part.map_binding_slot? hapt, harguments, CallModel.outputs]
  have hparts : ∀ part ∈ parts, part.binding.Resolved := by
    intro part hpart
    refine hresolved _ ?_
    rw [← harguments]
    exact List.mem_map_of_mem hpart
  rw [← houtputs, ← harguments, List.zip_map']
  exact records_extractAll_reports d s hparts hapt

/-- What a function returns is extracted first. -/
theorem records_extractReturned_reports {returned : Binding} (hreturned : returned.Resolved)
    (houtput : returned.producesOutput = true) (p : P) :
    Records
      (ExceptT.run do
        let value ← d.recorded.extract returned p
        return (⟨some value, ← d.recorded.extractAll
          (m.arguments.zip (parts.map Part.bind))⟩ : Outcome C))
      (ExceptT.run do
        let value ← d.extract returned p
        return (⟨some value, ← d.extractAll (m.arguments.zip (parts.map Part.bind))⟩ : Outcome C))
      s fun u r => Reports (returned :: m.outputs) u r := by
  refine .bind_session (records_extract_reports d s m.outputs hreturned houtput p) ?_ ?_
  · exact fun u e h => h.1
  · rintro u value after - ⟨hu, hlength⟩
    have hdrop : (returned :: m.outputs).drop (fetched u).length = m.outputs := by
      rw [hlength ⟨value, rfl⟩]
      rfl
    refine .bind_session
      (records_extractAll_zip_reports d after harguments hresolved hapt) ?_ ?_
    · exact fun v e h => .append_left hu (by rw [hdrop]; exact h)
    · rintro v outputs later - hv
      refine .pure (.append (r := .ok _) hu ?_)
      rw [List.append_nil, hdrop]
      exact hv

/-- **Calling the routine** reports the first failure of the call and of what follows it. -/
theorem records_invoke_reports (hd : d.KeepsBinds)
    (hreturned : ∀ b ∈ m.returnValue, b.Resolved ∧ b.producesOutput = true) :
    Records (d.recorded.invoke m (parts.map Part.bind)) (d.invoke m (parts.map Part.bind)) s
      fun u r => Reports m.results u r.1 := by
  unfold Driver.invoke CallModel.results
  cases hm : m.returnValue with
  | none =>
    refine (Records.ask d _).bind fun u a after _ h => ?_
    obtain ⟨rfl, ha⟩ := h
    cases a with
    | error e => exact .pure (.refused _ s (by simp) e)
    | ok reply =>
      obtain ⟨left, hlength⟩ := reply
      obtain rfl : left = parts.map Part.bind := hd.procedure _ _ _ _ ha.symm
      refine (records_extractAll_zip_reports d after harguments hresolved hapt).bind
        fun v outputs later _ hv => .pure ?_
      rw [List.append_nil]
      refine .append (t := [_]) rfl ?_
      cases outputs with
      | error e => exact hv
      | ok outputs => exact hv
  | some returned =>
    obtain ⟨hresolvedReturned, houtput⟩ := hreturned returned hm
    refine (Records.ask d _).bind fun u a after _ h => ?_
    obtain ⟨rfl, -⟩ := h
    cases a with
    | error e => exact .pure (.refused _ s (by simp) e)
    | ok p =>
      refine (Records.ask d _).bind fun v a later _ h => ?_
      obtain ⟨rfl, ha⟩ := h
      cases a with
      | error e => exact .pure (.append_left (t := [_]) rfl (.refused _ after (by simp) e))
      | ok reply =>
        obtain ⟨left, hlength⟩ := reply
        obtain rfl : left = parts.map Part.bind := hd.function _ _ _ _ _ ha.symm
        refine (records_extractReturned_reports d later harguments hresolved hapt
          hresolvedReturned houtput p).bind fun w outcome last _ hw => .pure ?_
        rw [List.append_nil]
        exact .append (t := [_]) rfl (.append (t := [_]) rfl hw)

end Call

section Execution

variable {types : TypeTable} {declaration : Declaration} {m : CallModel}
  (hmodel : CallModel.ofDeclaration types declaration = .ok m) {inputs : List Value}
  (hinputs : inputs.length = m.inputArity) (hd : d.KeepsBinds)

include hmodel hinputs hd

theorem records_call_reports :
    Records (d.recorded.call m inputs) (d.call m inputs) s fun u r =>
      Reports m.results u r.1 := by
  have hresolved := CallModel.arguments_resolved hmodel
  have hreturned : ∀ b ∈ m.returnValue, b.Resolved ∧ b.producesOutput = true := fun b hb =>
    ⟨(CallModel.returnValue_resolved hmodel b hb).1,
      CallModel.producesOutput_of_mem_returnValue hmodel b hb⟩
  unfold Driver.call
  refine ((records_prepareAll_reports d s m.results m.arguments inputs).and
    (records_prepareAll_exchanges d s hresolved hinputs)).bind fun u r after _ hr => ?_
  obtain ⟨binds, e | _⟩ := r
  · obtain ⟨⟨hu, -⟩, -⟩ := hr
    refine .pure ?_
    rw [List.append_nil]
    exact hu
  · obtain ⟨⟨hu, hfetched⟩, parts, harguments, -, hapt, rfl, -⟩ := hr
    refine (records_invoke_reports d after harguments hresolved hapt hd hreturned).mono
      fun v r hv => .append hu ?_
    -- nothing was read so far
    rw [hfetched]
    exact hv

/-- **The whole execution.** An error of its clean-up counts only if nothing went wrong before. -/
theorem records_execute_reports :
    Records (d.recorded.execute m inputs).run (d.execute m inputs).run s fun u r =>
      Reports m.results u r := by
  rw [Driver.run_execute _ hinputs, Driver.run_execute _ hinputs]
  refine (records_call_reports d s hmodel hinputs hd).bind fun u r after _ hu => ?_
  refine (records_releaseAll_reports d after (m.results.drop (fetched u).length) r.2).bind
    fun v released later _ hv => .pure ?_
  obtain ⟨outcome, held⟩ := r
  rw [List.append_nil]
  cases outcome with
  | error e => exact Reported.append_right hu v
  | ok outcome =>
    refine .append hu ?_
    cases released with
    | error e => exact hv
    | ok _ => exact hv

/-- **The first failure is the one reported.** Let the model be made from a declaration, let there
be an input for each argument that takes one, and let the driver leave the binds in place. Then an
execution succeeds exactly if nothing goes wrong in it, and if something does, its error is that of
the first failure, whatever else fails after it. The only exception is a placeholder that cannot be
seeded and that cannot be released after that: then the error of the release takes its place. -/
theorem reports_first_failure :
    ((∃ outcome, ((d.execute m inputs).run.run s).1 = .ok outcome) ↔
      failures m.results (d.trace m inputs s) = []) ∧
    ∀ e rest, failures m.results (d.trace m inputs s) = e :: rest →
      ((∀ f, ¬ SeedUncleaned m.results (d.trace m inputs s) f) →
        ((d.execute m inputs).run.run s).1 = .error e) ∧
      ∀ f, SeedUncleaned m.results (d.trace m inputs s) f →
        ((d.execute m inputs).run.run s).1 = .error f := by
  have hreports : Reports m.results (d.trace m inputs s) ((d.execute m inputs).run.run s).1 :=
    (records_execute_reports d s hmodel hinputs hd).trace
  cases hresult : ((d.execute m inputs).run.run s).1 with
  | ok outcome =>
    rw [hresult] at hreports
    have hnone : failures m.results (d.trace m inputs s) = [] := hreports
    refine ⟨⟨fun _ => hnone, fun _ => ⟨outcome, rfl⟩⟩, fun e rest hsome => ?_⟩
    rw [hnone] at hsome
    cases hsome
  | error g =>
    rw [hresult] at hreports
    have hreported : Reported m.results (d.trace m inputs s) g := hreports
    refine ⟨⟨?_, fun hnone => absurd hnone hreported.failures_ne_nil⟩, fun e rest hsome => ⟨?_, ?_⟩⟩
    · rintro ⟨outcome, hok⟩
      cases hok
    · intro hcleaned
      rcases hreported.head?_or_seedUncleaned with hhead | huncleaned
      · rw [hsome] at hhead
        cases hhead
        rfl
      · exact absurd huncleaned (hcleaned g)
    · intro f huncleaned
      rw [hreported.eq_of_seedUncleaned huncleaned]

end Execution

end Executor

/-- A procedure whose argument can be neither seeded nor released: the second failure is
reported, and not the first. -/
theorem reports_release_of_unseeded :
    let types : TypeTable := ⟨"oracle", [("number", ⟨"NUMBER", .scalar⟩)], by decide⟩
    let a : Argument := ⟨"a", .inOut, true, "number", none⟩
    let m : CallModel := ⟨"P", [⟨a, "NUMBER", .scalar, .forParameter .scalar .inOut⟩], none,
      .procedure "P" [a]⟩
    let d := Rehearsal.driver ⟨[1, 2], [], []⟩
    let t := d.trace m [.int 1] .empty
    CallModel.ofDeclaration types (.procedure "P" [a]) = .ok m ∧
      [Value.int 1].length = m.inputArity ∧ d.KeepsBinds ∧
      t.map Event.request = [.allocate "NUMBER" .scalar, .seed 0 (.int 1), .release 0] ∧
      failures m.results t = [Rehearsal.fault 1, Rehearsal.fault 2] ∧
      SeedUncleaned m.results t (Rehearsal.fault 2) ∧
      ((d.execute m [.int 1]).run.run .empty).1 = .error (Rehearsal.fault 2) := by
  intro types a m d t
  have hmodel : CallModel.ofDeclaration types (.procedure "P" [a]) = .ok m := by decide
  have hd : d.KeepsBinds := Rehearsal.keepsBinds rfl
  have hfailures : failures m.results t = [Rehearsal.fault 1, Rehearsal.fault 2] := by decide
  have huncleaned : SeedUncleaned m.results t (Rehearsal.fault 2) :=
    ⟨t.take 1, _, _, 0, .int 1, Rehearsal.fault 1, [], rfl, rfl⟩
  have hreported := (reports_first_failure d .empty hmodel rfl hd).2 _ _ hfailures
  exact ⟨hmodel, rfl, hd, by decide, hfailures, huncleaned, hreported.2 _ huncleaned⟩

end StoredRoutine
