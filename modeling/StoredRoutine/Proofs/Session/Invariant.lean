import StoredRoutine.Proofs.Session.Discipline

/-!
# Invariants of a session

What every request keeps, an execution keeps, since it does nothing to a session but make requests.
`Leads I J x` says that the computation `x` leads from states of which `I` holds to states of which
`J` holds, whether it succeeds or not, and its rules follow the way computations are put together.

There is one request in an execution at which an invariant may change, the call of the routine.
`leads_execute` is the rule for the whole of it: what holds before that is kept by preparation and
by clean-up, the call makes of it what holds from then on, and that is kept by extraction and by
clean-up.

Put under observation, a session is a sequence of `Steps`, and an execution is one as well
(`steps_trace`). At most one of the steps is a call, and that is of the routine of the model.
-/

namespace StoredRoutine

variable {S P L C : Type} {α β : Type}

/-! ## Computations -/

/-- From a state of which `I` holds the computation leads to one of which `J` holds. -/
def Leads (I J : S → Prop) (x : StateM S α) : Prop := ∀ s, I s → J (x.run s).2

namespace Leads

variable {I J K : S → Prop}

theorem of_imp (h : ∀ s, I s → J s) (a : α) : Leads I J (Pure.pure a : StateM S α) := h

theorem pure (a : α) : Leads I I (Pure.pure a : StateM S α) := of_imp (fun _ h => h) a

theorem bind {x : StateM S α} {f : α → StateM S β} (hx : Leads I J x)
    (hf : ∀ a, Leads J K (f a)) : Leads I K (x >>= f) :=
  fun s hs => hf (x.run s).1 _ (hx s hs)

/-- Sequencing of computations that can fail. An error ends the sequence. -/
theorem bind_session {x : Session S α} {f : α → Session S β} (hx : Leads I I x.run)
    (hf : ∀ a, Leads I I (f a).run) : Leads I I (x >>= f).run := by
  rw [ExceptT.run_bind]
  refine hx.bind fun a => ?_
  cases a with
  | error e => exact .pure _
  | ok a => exact hf a

/-- A computation with a handler for its errors. -/
theorem attempt {x : Session S α} {f : Error → Session S α} (hx : Leads I I x.run)
    (hf : ∀ e, Leads I I (f e).run) : Leads I I (tryCatch x f).run := by
  rw [ExceptT.run_tryCatch]
  refine hx.bind fun a => ?_
  cases a with
  | error e => exact hf e
  | ok a => exact .pure _

end Leads

/-! ## Phases of an execution -/

/-- The requests of the phase keep what `I` says of the state. -/
def Driver.Keeps (d : Driver S P L C) (I : S → Prop) (phase : Phase) : Prop :=
  ∀ (r : Request P L) (s : S), r.phase = phase → I s → I (d.answer r s).2

/-- The name of the routine that is to be called. -/
def Request.routine? : Request P L → Option String
  | .callProcedure name _ | .callFunction name _ _ => some name
  | _ => none

theorem Request.routine?_eq_none {r : Request P L} (h : r.phase ≠ .invoke) : r.routine? = none := by
  cases r <;> first | rfl | exact absurd rfl h

section Executor

variable {d : Driver S P L C} {I J : S → Prop}

theorem Driver.Keeps.ask {phase : Phase} (h : d.Keeps I phase) {r : Request P L}
    (hr : r.phase = phase) : Leads I I (d.ask r).run := fun s => h r s hr

section Prepare

variable (hprepare : d.Keeps I .prepare) (hrelease : d.Keeps I .release)

include hprepare hrelease

theorem leads_prepare (b : Binding) (input : Value) : Leads I I (d.prepare b input).run := by
  unfold Driver.prepare
  cases b.strategy.prepare with
  | passValue => exact .pure _
  | allocate => exact .bind_session (hprepare.ask rfl) fun p => .pure _
  | allocateAndSeed =>
    refine .bind_session (hprepare.ask rfl) fun p => ?_
    refine .bind_session ?_ fun _ => .pure _
    refine .attempt (hprepare.ask rfl) fun e => ?_
    exact .bind_session (hrelease.ask rfl) fun _ => .pure _

theorem leads_prepareAll (bindings : List Binding) (inputs : List Value) :
    Leads I I (d.prepareAll bindings inputs) := by
  induction bindings generalizing inputs with
  | nil => exact .pure _
  | cons b rest ih =>
    simp only [Driver.prepareAll]
    refine .bind (leads_prepare hprepare hrelease b _) fun r => ?_
    cases r with
    | error e => exact .pure _
    | ok bind => exact .bind (ih _) fun _ => .pure _

end Prepare

section Extract

variable (hextract : d.Keeps I .extract)

include hextract

theorem leads_extract (b : Binding) (p : P) : Leads I I (d.extract b p).run := by
  unfold Driver.extract
  refine .bind_session (hextract.ask rfl) fun found => ?_
  split
  · exact .pure _
  · exact .pure _
  · exact .bind_session (hextract.ask rfl) fun _ => .pure _
  · exact .pure _
  · exact .pure _

theorem leads_extractAll (pairs : List (Binding × Bind P)) :
    Leads I I (d.extractAll pairs).run := by
  induction pairs with
  | nil => exact .pure _
  | cons pair rest ih =>
    obtain ⟨b, bind⟩ := pair
    simp only [Driver.extractAll]
    split
    · exact ih
    · cases bind with
      | value v => exact .pure _
      | placeholder p =>
        refine .bind_session (leads_extract hextract b p) fun output => ?_
        exact .bind_session ih fun _ => .pure _

end Extract

theorem leads_releaseAll (hrelease : d.Keeps I .release) (ps : List P) :
    Leads I I (d.releaseAll ps).run := by
  induction ps with
  | nil => exact .pure _
  | cons p rest ih => exact .bind_session (hrelease.ask rfl) fun _ => ih

section Execution

variable (m : CallModel) (hIJ : ∀ s, I s → J s) (hprepare : d.Keeps I .prepare)
  (hcall : ∀ (r : Request P L) (s : S), r.routine? = some m.name → I s → J (d.answer r s).2)
  (hextract : d.Keeps J .extract)

include hIJ hprepare hcall hextract

/-- The call of the routine is where the one invariant takes the place of the other. -/
theorem leads_invoke (binds : List (Bind P)) : Leads I J (d.invoke m binds) := by
  unfold Driver.invoke
  cases m.returnValue with
  | none =>
    refine .bind (fun s hs => hcall (.callProcedure m.name binds) s rfl hs) fun a => ?_
    cases a with
    | error e => exact .pure _
    | ok reply => exact .bind (leads_extractAll hextract _) fun _ => .pure _
  | some returned =>
    refine .bind (hprepare.ask rfl) fun a => ?_
    cases a with
    | error e => exact .of_imp hIJ _
    | ok p =>
      refine .bind (fun s hs => hcall (.callFunction m.name p binds) s rfl hs) fun a => ?_
      cases a with
      | error e => exact .pure _
      | ok reply =>
        refine .bind ?_ fun _ => .pure _
        refine .bind_session (leads_extract hextract returned p) fun value => ?_
        exact .bind_session (leads_extractAll hextract _) fun _ => .pure _

/-- **The rule for an execution.** -/
theorem leads_execute (hreleaseI : d.Keeps I .release) (hreleaseJ : d.Keeps J .release)
    (inputs : List Value) : Leads I J (d.execute m inputs).run := by
  by_cases h : inputs.length = m.inputArity
  · rw [Driver.run_execute _ h]
    have hwhole : Leads I J (d.call m inputs) := by
      unfold Driver.call
      refine .bind (leads_prepareAll hprepare hreleaseI _ _) fun r => ?_
      obtain ⟨binds, prepared⟩ := r
      cases prepared with
      | error e => exact .of_imp hIJ _
      | ok _ => exact leads_invoke m hIJ hprepare hcall hextract binds
    exact hwhole.bind fun r => .bind (leads_releaseAll hreleaseJ r.2) fun _ => .pure _
  · rw [Driver.run_execute_of_ne _ h]
    exact .of_imp hIJ _

end Execution

end Executor

/-! ## Steps -/

/-- **The steps of a session**: from the state `s` on the trace is what passes, up to a state. -/
inductive Driver.Steps (d : Driver S P L C) (s : S) : Trace S P L C → S → Prop
  | nil : d.Steps s [] s
  | ask {t : Trace S P L C} {now : S} (h : d.Steps s t now) (r : Request P L) :
      d.Steps s (t ++ [⟨now, r, (d.answer r now).1⟩]) (d.answer r now).2

/-- Every event of a session is the answer of the driver in the state that the steps before it
lead to. -/
theorem Driver.Steps.of_append {d : Driver S P L C} {s after : S} {t before rest : Trace S P L C}
    {e : Event S P L C} (h : d.Steps s t after) (ht : t = before ++ e :: rest) :
    d.Steps s before e.before ∧ e.answer = (d.answer e.request e.before).1 := by
  induction h generalizing rest with
  | nil => simp at ht
  | @ask t now h r ih =>
    rcases List.eq_nil_or_concat rest with rfl | ⟨rest, last, rfl⟩
    · obtain ⟨rfl, hlast⟩ := List.append_inj' ht rfl
      obtain rfl := (List.cons.inj hlast).1
      exact ⟨h, rfl⟩
    · rw [List.concat_eq_append, ← List.cons_append, ← List.append_assoc] at ht
      exact ih (List.append_inj' ht rfl).1

/-- The names of the routines that are to be called in the course of a trace. -/
def called (t : Trace S P L C) : List String := t.filterMap (·.request.routine?)

theorem called_append (t u : Trace S P L C) : called (t ++ u) = called t ++ called u :=
  List.filterMap_append

/-- A request that is no call adds no call. -/
theorem called_concat {e : Event S P L C} (h : e.request.phase ≠ .invoke) (t : Trace S P L C) :
    called (t ++ [e]) = called t := by
  have hnone : called [e] = [] :=
    List.filterMap_cons_none (Request.routine?_eq_none h)
  rw [called_append, hnone, List.append_nil]

/-- With a wrong number of inputs nothing is asked for. -/
theorem trace_eq_nil_of_ne (d : Driver S P L C) {m : CallModel} {inputs : List Value}
    (h : inputs.length ≠ m.inputArity) (s : S) : d.trace m inputs s = [] := by
  rw [Driver.trace, Driver.run_execute_of_ne _ h]
  rfl

/-- Under observation an execution ends in the state that it ends in without. -/
theorem run_recorded_execute {d : Driver S P L C} (hd : d.KeepsBinds) (m : CallModel)
    (inputs : List Value) (s : S) :
    ((d.recorded.execute m inputs).run.run (s, [])).2 =
      (((d.execute m inputs).run.run s).2, d.trace m inputs s) := by
  have hstate : ((d.recorded.execute m inputs).run.run (s, [])).2.1 =
      ((d.execute m inputs).run.run s).2 := by
    by_cases h : inputs.length = m.inputArity
    · obtain ⟨u, hrun, -⟩ := records_execute hd m inputs s h
      exact congrArg (fun result => result.2.1) (hrun [])
    · rw [Driver.run_execute_of_ne _ h, Driver.run_execute_of_ne _ h]
      rfl
  exact Prod.ext hstate rfl

/-- **An execution is a session**, and at most one of its steps is a call. -/
theorem steps_trace {d : Driver S P L C} (hd : d.KeepsBinds) (m : CallModel) (inputs : List Value)
    (s : S) :
    d.Steps s (d.trace m inputs s) ((d.execute m inputs).run.run s).2 ∧
      (called (d.trace m inputs s) = [] ∨ called (d.trace m inputs s) = [m.name]) := by
  let quiet : S × Trace S P L C → Prop := fun x => d.Steps s x.2 x.1 ∧ called x.2 = []
  let done : S × Trace S P L C → Prop := fun x =>
    d.Steps s x.2 x.1 ∧ (called x.2 = [] ∨ called x.2 = [m.name])
  have hquiet : ∀ phase, phase ≠ .invoke → d.recorded.Keeps quiet phase := by
    rintro phase hphase r ⟨now, t⟩ rfl ⟨hsteps, hcalled⟩
    exact ⟨hsteps.ask r, (called_concat hphase t).trans hcalled⟩
  have hdone : ∀ phase, phase ≠ .invoke → d.recorded.Keeps done phase := by
    rintro phase hphase r ⟨now, t⟩ rfl ⟨hsteps, hcalled⟩
    have hsame : called (t ++ [⟨now, r, (d.answer r now).1⟩]) = called t := called_concat hphase t
    exact ⟨hsteps.ask r, hcalled.imp hsame.trans hsame.trans⟩
  have hcall : ∀ (r : Request P L) (x : S × Trace S P L C), r.routine? = some m.name → quiet x →
      done (d.recorded.answer r x).2 := by
    rintro r ⟨now, t⟩ hr ⟨hsteps, hcalled⟩
    refine ⟨hsteps.ask r, .inr ?_⟩
    have hone : called [(⟨now, r, (d.answer r now).1⟩ : Event S P L C)] = [m.name] :=
      List.filterMap_cons_some hr
    have happend := called_append t [⟨now, r, (d.answer r now).1⟩]
    rw [hcalled, hone, List.nil_append] at happend
    exact happend
  have hexecute := leads_execute m (fun _ h => ⟨h.1, .inl h.2⟩) (hquiet .prepare (by decide)) hcall
    (hdone .extract (by decide)) (hquiet .release (by decide)) (hdone .release (by decide)) inputs
    (s, []) ⟨.nil, rfl⟩
  rw [run_recorded_execute hd] at hexecute
  exact hexecute

end StoredRoutine
