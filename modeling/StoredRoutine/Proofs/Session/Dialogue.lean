import StoredRoutine.Driver.Rehearsal
import StoredRoutine.Proofs.CallModel
import StoredRoutine.Proofs.Session.Ownership

/-!
# The dialogue of a successful call

What passes between an executor and its driver in a call in which nothing goes wrong. A `Dialogue`
has an entry for every argument, with the input that belongs to it and the placeholder that stands
for it, and an entry for every placeholder, with what is found in it after the call. The exchanges
of a dialogue (`Dialogue.exchanges`) are written down from these entries alone: each argument's own
preparation in order, the call, each placeholder's own retrieval in order, and the releases.

`exists_dialogue` says that a trace in which every request is granted, no bind is replaced and
every read finds what suits the family consists of the exchanges of a dialogue, and of nothing
else. Three sequences of different lengths are in step there: the arguments, the inputs for some
of them, and the placeholders for others.
-/

namespace StoredRoutine

variable {S P L C : Type}

/-! ## Exchanges -/

/-- A request with the reply that grants it. -/
abbrev Exchange (P L C : Type) : Type := (r : Request P L) × r.Reply C

/-- What a read finds. -/
def Exchange.fetched? : Exchange P L C → Option (Fetched L C)
  | ⟨.read _, found⟩ => some found
  | _ => none

namespace Event

/-- The request and its reply, if it was granted. -/
def exchange? : Event S P L C → Option (Exchange P L C)
  | ⟨_, r, .ok reply⟩ => some ⟨r, reply⟩
  | ⟨_, _, .error _⟩ => none

/-- If the event is a call, the binds are left as they were. -/
def KeepsBinds : Event S P L C → Prop
  | ⟨_, .callProcedure _ binds, .ok left⟩ | ⟨_, .callFunction _ _ binds, .ok left⟩ =>
    left.val = binds
  | _ => True

instance [DecidableEq P] : (e : Event S P L C) → Decidable e.KeepsBinds
  | ⟨_, .callProcedure _ binds, .ok left⟩ | ⟨_, .callFunction _ _ binds, .ok left⟩ =>
    inferInstanceAs (Decidable (left.val = binds))
  | ⟨_, .callProcedure .., .error _⟩ | ⟨_, .callFunction .., .error _⟩ | ⟨_, .allocate .., _⟩
  | ⟨_, .seed .., _⟩ | ⟨_, .read _, _⟩ | ⟨_, .materialize _, _⟩ | ⟨_, .release _, _⟩ =>
    isTrue trivial

end Event

/-- What the reads of a trace find, in order. -/
def fetched (t : Trace S P L C) : List (Fetched L C) :=
  t.filterMap fun e => e.exchange?.bind Exchange.fetched?

/-- Every request of the trace is granted, and these are the requests with their replies. -/
def Consists (t : Trace S P L C) (xs : List (Exchange P L C)) : Prop :=
  t.map Event.exchange? = xs.map some

namespace Consists

variable {t u : Trace S P L C} {xs ys : List (Exchange P L C)}

theorem nil : Consists ([] : Trace S P L C) [] := rfl

theorem single (s : S) (r : Request P L) (reply : r.Reply C) :
    Consists [(⟨s, r, .ok reply⟩ : Event S P L C)] [⟨r, reply⟩] := rfl

theorem cons {s : S} {r : Request P L} {reply : r.Reply C} (h : Consists t xs) :
    Consists (⟨s, r, .ok reply⟩ :: t) (⟨r, reply⟩ :: xs) := congrArg (some _ :: ·) h

theorem append (ht : Consists t xs) (hu : Consists u ys) : Consists (t ++ u) (xs ++ ys) := by
  unfold Consists at *
  rw [List.map_append, List.map_append, ht, hu]

/-- What is found is in the exchanges. -/
theorem fetched_eq (h : Consists t xs) : fetched t = xs.filterMap Exchange.fetched? := by
  have hbind := congrArg (List.filterMap fun x? => x?.bind Exchange.fetched?) h
  simpa [List.filterMap_map, fetched, Function.comp_def] using hbind

end Consists

@[simp] theorem fetched_append (t u : Trace S P L C) :
    fetched (t ++ u) = fetched t ++ fetched u := by
  simp [fetched]

/-- A request of the trace was refused. -/
def HasRefusal (t : Trace S P L C) : Prop := ∃ e ∈ t, e.isRefused = true

theorem HasRefusal.single (s : S) (r : Request P L) (e : Error) :
    HasRefusal [(⟨s, r, .error e⟩ : Event S P L C)] := ⟨_, List.mem_singleton_self _, rfl⟩

theorem HasRefusal.append_left {t : Trace S P L C} (h : HasRefusal t) (u : Trace S P L C) :
    HasRefusal (t ++ u) := by
  obtain ⟨e, he, hrefused⟩ := h
  exact ⟨e, List.mem_append_left u he, hrefused⟩

theorem HasRefusal.append_right {u : Trace S P L C} (h : HasRefusal u) (t : Trace S P L C) :
    HasRefusal (t ++ u) := by
  obtain ⟨e, he, hrefused⟩ := h
  exact ⟨e, List.mem_append_right t he, hrefused⟩

/-! ## What is found -/

/-- Can an output of the family be extracted from this? -/
def Family.admits : Family → Fetched L C → Bool
  | .scalar, .value _ => true
  | .largeObject, .value v => v.isNull
  | .largeObject, .locator _ => true
  | .cursor, .cursor _ => true
  | _, _ => false

/-- What is fetched from a placeholder in the end. -/
inductive Finding (L C : Type) where
  | value (v : Value)
  /-- a locator and the content behind it -/
  | content (l : L) (v : Value)
  | cursor (c : C)

namespace Finding

/-- A read of the placeholder, and if it finds a locator, the content is asked for at once. -/
def retrieval (p : P) : Finding L C → List (Exchange P L C)
  | value v => [⟨.read p, .value v⟩]
  | content l v => [⟨.read p, .locator l⟩, ⟨.materialize l, v⟩]
  | cursor c => [⟨.read p, .cursor c⟩]

/-- The output that is made of it. -/
def output : Finding L C → Output C
  | value v | content _ v => .value v
  | cursor c => .rows (.ofCursor c)

/-- One read is made. -/
theorem length_fetched_retrieval (f : Finding L C) (p : P) :
    ((f.retrieval p).filterMap Exchange.fetched?).length = 1 := by
  cases f <;> rfl

end Finding

/-! ## The parts of a dialogue -/

/-- A placeholder, and what it stands for. -/
structure Slot (P : Type) where
  binding : Binding
  placeholder : P

/-- An argument in a call. -/
structure Part (P : Type) where
  binding : Binding
  /-- What the caller supplies; no use is made of it if the argument does not take an input. -/
  input : Value
  /-- The placeholder that is bound to the argument, if it is not the input that is. -/
  placeholder? : Option P

namespace Part

/-- What is bound to the argument. -/
def bind (part : Part P) : Bind P :=
  match part.placeholder? with
  | none => .value part.input
  | some p => .placeholder p

/-- The placeholder and what it stands for. -/
def slot? (part : Part P) : Option (Slot P) := part.placeholder?.map (⟨part.binding, ·⟩)

/-- What is asked for before the call: for an argument with a placeholder that this be allocated,
and if the argument is `in out` and not a cursor, that the placeholder hold its input. -/
def preparation (part : Part P) : List (Exchange P L C) :=
  match part.placeholder? with
  | none => []
  | some p =>
    ⟨.allocate part.binding.token part.binding.family, p⟩ ::
      if part.binding.argument.direction = .inOut ∧ part.binding.family ≠ .cursor then
        [⟨.seed p part.input, ()⟩]
      else []

/-- It is exactly an argument with an output for which a placeholder stands. -/
def Apt (part : Part P) : Prop := part.placeholder?.isSome = part.binding.producesOutput

theorem preparation_of_placeholder (b : Binding) (input : Value) (p : P) :
    (⟨b, input, some p⟩ : Part P).preparation = (⟨.allocate b.token b.family, p⟩ ::
      if b.argument.direction = .inOut ∧ b.family ≠ .cursor then [⟨.seed p input, ()⟩]
      else [] : List (Exchange P L C)) := rfl

/-- Nothing is read before the call. -/
theorem fetched_preparation (part : Part P) :
    (part.preparation : List (Exchange P L C)).filterMap Exchange.fetched? = [] := by
  obtain ⟨b, input, _ | p⟩ := part
  · rfl
  · rw [preparation_of_placeholder]
    split <;> rfl

theorem filterMap_placeholder?_bind (parts : List (Part P)) :
    (parts.map bind).filterMap (·.placeholder?) = (parts.filterMap slot?).map (·.placeholder) := by
  induction parts with
  | nil => rfl
  | cons part rest ih =>
    obtain ⟨b, input, _ | p⟩ := part
    · exact ih
    · exact congrArg (p :: ·) ih

/-- The arguments with an output are those that have a placeholder. -/
theorem map_binding_slot? {parts : List (Part P)} (h : ∀ part ∈ parts, part.Apt) :
    (parts.filterMap slot?).map (·.binding) =
      (parts.map (·.binding)).filter (·.producesOutput) := by
  induction parts with
  | nil => rfl
  | cons part rest ih =>
    obtain ⟨hpart, hrest⟩ := List.forall_mem_cons.mp h
    obtain ⟨b, input, _ | p⟩ := part
    · have houtput : b.producesOutput = false := Eq.symm hpart
      rw [List.map_cons, List.filter_cons_of_neg (by simp [houtput])]
      exact ih hrest
    · have houtput : b.producesOutput = true := Eq.symm hpart
      rw [List.map_cons, List.filter_cons_of_pos houtput]
      exact congrArg (b :: ·) (ih hrest)

end Part

/-- **A call in which nothing goes wrong.** -/
structure Dialogue (P L C : Type) where
  /-- the arguments in the order of the declaration -/
  parts : List (Part P)
  /-- the placeholder for what a function returns -/
  returned? : Option (Slot P)
  /-- the placeholders, with what is found in them -/
  found : List (Slot P × Finding L C)

namespace Dialogue

/-- What is bound to the arguments, position by position. -/
def binds (c : Dialogue P L C) : List (Bind P) := c.parts.map Part.bind

/-- The placeholders: the one for what is returned, then those of the arguments in order. -/
def slots (c : Dialogue P L C) : List (Slot P) :=
  c.returned?.toList ++ c.parts.filterMap Part.slot?

/-- The call itself. The placeholder for what a function returns is allocated just before it. -/
def invocation (c : Dialogue P L C) (name : String) : List (Exchange P L C) :=
  match c.returned? with
  | none => [⟨.callProcedure name c.binds, ⟨c.binds, rfl⟩⟩]
  | some slot =>
    [⟨.allocate slot.binding.token slot.binding.family, slot.placeholder⟩,
      ⟨.callFunction name slot.placeholder c.binds, ⟨c.binds, rfl⟩⟩]

/-- **The exchanges of a dialogue**, in order: preparation, call, retrieval, clean-up. -/
def exchanges (c : Dialogue P L C) (name : String) : List (Exchange P L C) :=
  c.parts.flatMap Part.preparation ++ c.invocation name ++
    c.found.flatMap (fun x => x.2.retrieval x.1.placeholder) ++
    c.slots.map fun slot => ⟨.release slot.placeholder, ()⟩

/-- The dialogue is about a call of the model with the inputs. -/
structure IsAbout (c : Dialogue P L C) (m : CallModel) (inputs : List Value) : Prop where
  /-- There is a part for each argument. -/
  arguments : c.parts.map (·.binding) = m.arguments
  /-- The inputs belong to the arguments that take one, in order. -/
  inputs : (c.parts.filter (·.binding.takesInput)).map (·.input) = inputs
  /-- Exactly the arguments with an output have a placeholder. -/
  apt : ∀ part ∈ c.parts, part.Apt
  /-- What is returned has one as well. -/
  returned : c.returned?.map (·.binding) = m.returnValue
  /-- Something is found in each. -/
  found : c.found.map (·.1) = c.slots

end Dialogue

/-- What comes back from a call: what is returned, then the arguments with an output. -/
def CallModel.results (m : CallModel) : List Binding := m.returnValue.toList ++ m.outputs

/-- A trace in which nothing goes wrong. -/
structure Smooth (results : List Binding) (t : Trace S P L C) : Prop where
  /-- No request is refused. -/
  granted : ∀ e ∈ t, e.isRefused = false
  /-- No bind is replaced. -/
  keeps_binds : ∀ e ∈ t, e.KeepsBinds
  /-- Every read finds what suits the family of the result that is read. -/
  admitted : ∀ x ∈ results.zip (fetched t), x.1.family.admits x.2 = true

namespace Smooth

variable {results : List Binding} {t u : Trace S P L C}

theorem of_append_left (h : Smooth results (t ++ u)) (hu : fetched u = []) : Smooth results t where
  granted e he := h.granted e (List.mem_append_left u he)
  keeps_binds e he := h.keeps_binds e (List.mem_append_left u he)
  admitted := by
    have hadmitted := h.admitted
    rwa [fetched_append, hu, List.append_nil] at hadmitted

theorem of_append_right (h : Smooth results (t ++ u)) (ht : fetched t = []) : Smooth results u where
  granted e he := h.granted e (List.mem_append_right t he)
  keeps_binds e he := h.keeps_binds e (List.mem_append_right t he)
  admitted := by
    have hadmitted := h.admitted
    rwa [fetched_append, ht, List.nil_append] at hadmitted

theorem not_hasRefusal (h : Smooth results t) : ¬ HasRefusal t := by
  rintro ⟨e, he, hrefused⟩
  rw [h.granted e he] at hrefused
  cases hrefused

end Smooth

/-! ## Prepare -/

section Executor

variable (d : Driver S P L C) (s : S)

theorem records_seed_exchange (p : P) (input : Value) :
    Records
      (tryCatch (d.recorded.ask (.seed p input)) fun e => do
        d.recorded.ask (.release p)
        throw e : Session (S × Trace S P L C) Unit).run
      (tryCatch (d.ask (.seed p input)) fun e => do
        d.ask (.release p)
        throw e : Session S Unit).run s fun u r =>
        match r with
        | .ok _ => Consists u [⟨.seed p input, ()⟩]
        | .error _ => HasRefusal u := by
  refine .attempt (.ask d _) ?_ ?_
  · rintro u a ⟨rfl, -⟩
    exact .single s (.seed p input) ()
  · rintro u e after - ⟨rfl, -⟩
    have hrefusal : ∀ v : Trace S P L C,
        HasRefusal ([(⟨s, .seed p input, .error e⟩ : Event S P L C)] ++ v) :=
      (HasRefusal.single s _ e).append_left
    refine .bind_session (.ask d _) (fun v _ _ => hrefusal v) ?_
    intro v _ later _ _
    exact .pure (hrefusal _)

/-- How an argument is prepared, in terms of what is seen of it in a dialogue. -/
theorem Binding.Resolved.prepare_eq {b : Binding} (hb : b.Resolved) :
    b.strategy.prepare =
      if b.producesOutput then
        if b.argument.direction = .inOut ∧ b.family ≠ .cursor then .allocateAndSeed else .allocate
      else .passValue := by
  rw [hb, producesOutput]
  generalize b.argument.direction = direction
  generalize b.family = family
  cases direction <;> cases family <;> rfl

/-- **Preparing an argument.** If it can be prepared, its own exchanges are made. -/
theorem records_prepare_exchange {b : Binding} (hb : b.Resolved) (input : Value) :
    Records (d.recorded.prepare b input).run (d.prepare b input).run s fun u r =>
      match r with
      | .ok bind => ∃ part : Part P, part.binding = b ∧ part.input = input ∧ part.Apt ∧
          part.bind = bind ∧ Consists u part.preparation
      | .error _ => HasRefusal u := by
  unfold Driver.prepare
  rw [hb.prepare_eq]
  by_cases houtput : b.producesOutput = true
  · rw [if_pos houtput]
    by_cases hseed : b.argument.direction = .inOut ∧ b.family ≠ .cursor
    · rw [if_pos hseed]
      refine .bind_session (.ask d _) ?_ ?_
      · rintro u e ⟨rfl, -⟩
        exact .single s _ e
      · rintro u p after - ⟨rfl, -⟩
        have hallocate := Consists.single (C := C) s (.allocate b.token b.family) p
        refine .bind_session (records_seed_exchange d after p input) ?_ ?_
        · exact fun v e h => HasRefusal.append_right h _
        · intro v _ later _ h
          refine .pure ⟨⟨b, input, some p⟩, rfl, rfl, houtput.symm, rfl, ?_⟩
          rw [List.append_nil, Part.preparation_of_placeholder, if_pos hseed]
          exact hallocate.append h
    · rw [if_neg hseed]
      refine .bind_session (.ask d _) ?_ ?_
      · rintro u e ⟨rfl, -⟩
        exact .single s _ e
      · rintro u p after - ⟨rfl, -⟩
        refine .pure ⟨⟨b, input, some p⟩, rfl, rfl, houtput.symm, rfl, ?_⟩
        rw [List.append_nil, Part.preparation_of_placeholder, if_neg hseed]
        exact .single s (.allocate b.token b.family) p
  · rw [if_neg houtput]
    exact .pure ⟨⟨b, input, none⟩, rfl, rfl, (Bool.eq_false_of_not_eq_true houtput).symm, rfl, .nil⟩

/-- The next input belongs to the first argument if this takes one, and the others are for the
rest. -/
theorem exists_next_input {b : Binding} {rest : List Binding} {inputs : List Value}
    (h : inputs.length = ((b :: rest).filter (·.takesInput)).length) :
    ∃ input others,
      (if b.takesInput then (inputs.head?.getD .null, inputs.tail) else (.null, inputs)) =
        (input, others) ∧
      others.length = (rest.filter (·.takesInput)).length ∧
      inputs = if b.takesInput then input :: others else others := by
  cases htakes : b.takesInput with
  | false =>
    rw [List.filter_cons_of_neg (by simp [htakes])] at h
    exact ⟨.null, inputs, rfl, h, rfl⟩
  | true =>
    rw [List.filter_cons_of_pos htakes] at h
    obtain ⟨input, others, rfl⟩ := List.exists_cons_of_length_eq_add_one h
    exact ⟨input, others, rfl, Nat.succ_inj.mp h, rfl⟩

/-- **Preparing the arguments.** If all can be prepared, each has had its own input. -/
theorem records_prepareAll_exchanges {bindings : List Binding}
    (hbindings : ∀ b ∈ bindings, b.Resolved) {inputs : List Value}
    (hinputs : inputs.length = (bindings.filter (·.takesInput)).length) :
    Records (d.recorded.prepareAll bindings inputs) (d.prepareAll bindings inputs) s fun u r =>
      match r.2 with
      | .ok _ => ∃ parts : List (Part P), parts.map (·.binding) = bindings ∧
          (parts.filter (·.binding.takesInput)).map (·.input) = inputs ∧
          (∀ part ∈ parts, part.Apt) ∧ parts.map Part.bind = r.1 ∧
          Consists u (parts.flatMap Part.preparation)
      | .error _ => HasRefusal u := by
  induction bindings generalizing inputs s with
  | nil =>
    obtain rfl := List.eq_nil_of_length_eq_zero hinputs
    exact .pure ⟨[], rfl, rfl, by simp, rfl, .nil⟩
  | cons b rest ih =>
    obtain ⟨hb, hrest⟩ := List.forall_mem_cons.mp hbindings
    simp only [Driver.prepareAll]
    obtain ⟨input, others, hnext, hothers, rfl⟩ := exists_next_input hinputs
    rw [hnext]
    refine (records_prepare_exchange d s hb input).bind fun u r after _ hr => ?_
    cases r with
    | error e =>
      refine .pure ?_
      rw [List.append_nil]
      exact hr
    | ok bind =>
      obtain ⟨part, rfl, rfl, hapt, rfl, hpart⟩ := hr
      refine (ih after hrest hothers).bind fun v r later _ hr' => .pure ?_
      obtain ⟨binds, _ | _⟩ := r
      · exact HasRefusal.append_right (by simpa using hr') u
      · obtain ⟨parts, rfl, rfl, happts, rfl, hparts⟩ := hr'
        refine ⟨part :: parts, rfl, ?_, List.forall_mem_cons.mpr ⟨hapt, happts⟩, rfl, ?_⟩
        · rw [List.filter_cons]
          split <;> rfl
        · rw [List.append_nil, List.flatMap_cons]
          exact hpart.append hparts

/-! ## Extract -/

/-- The reads of the trace, taken for those of the results, find what does not suit them. -/
def HasMismatch (results : List Binding) (t : Trace S P L C) : Prop :=
  ∃ x ∈ results.zip (fetched t), x.1.family.admits x.2 = false

theorem Smooth.not_hasMismatch {results : List Binding} {t : Trace S P L C}
    (h : Smooth results t) : ¬ HasMismatch results t := by
  rintro ⟨x, hx, hmismatch⟩
  rw [h.admitted x hx] at hmismatch
  cases hmismatch

/-- The output that is made of what is found in a placeholder. -/
def Driver.outputOf : Fetched L C → Session S (Output C)
  | .value v => return .value v
  | .locator l => do return .value (← d.ask (.materialize l))
  | .cursor c => return .rows (.ofCursor c)

/-- **What extraction comes to**: a read, and an output of what it finds if that suits. -/
theorem Binding.Resolved.extract_eq {b : Binding} (hb : b.Resolved)
    (houtput : b.producesOutput = true) (p : P) :
    d.extract b p = (do
      let found ← d.ask (.read p)
      if b.family.admits found then d.outputOf found
      else throw (.ofCause (.protocolMismatch b.name b.family found.kindName))) := by
  have hextract : b.strategy.extract = Strategy.fetchOf b.family := by
    rw [hb, Strategy.forParameter]
    exact if_pos houtput
  unfold Driver.extract
  rw [hextract]
  refine congrArg _ (funext fun found => ?_)
  generalize b.family = family
  cases family with
  | scalar => cases found <;> rfl
  | largeObject =>
    cases found with
    | value v => cases v <;> rfl
    | _ => rfl
  | cursor => cases found <;> rfl

/-- **Extracting a result.** If it can be extracted, its own retrieval is made. -/
theorem records_extract_exchanges {b : Binding} (hb : b.Resolved)
    (houtput : b.producesOutput = true) (p : P) :
    Records (d.recorded.extract b p).run (d.extract b p).run s fun u r =>
      match r with
      | .ok output => ∃ finding : Finding L C, finding.output = output ∧
          Consists u (finding.retrieval p)
      | .error _ => HasRefusal u ∨ ∃ found, fetched u = [found] ∧ b.family.admits found = false := by
  rw [hb.extract_eq d.recorded houtput, hb.extract_eq d houtput]
  refine .bind_session (.ask d _) ?_ ?_
  · rintro u e ⟨rfl, -⟩
    exact .inl (.single s _ e)
  · rintro u found after - ⟨rfl, -⟩
    have hread := Consists.single (C := C) s (.read p) found
    cases hadmits : b.family.admits found with
    | false => exact .pure (.inr ⟨found, rfl, hadmits⟩)
    | true =>
      cases found with
      | value v => exact .pure ⟨.value v, rfl, hread⟩
      | locator l =>
        refine .bind_session (.ask d _) ?_ ?_
        · rintro v e ⟨rfl, -⟩
          exact .inl (.append_right (.single after _ e) _)
        · rintro v content later - ⟨rfl, -⟩
          exact .pure ⟨.content l content, rfl, hread.append (.single after (.materialize l) content)⟩
      | cursor c => exact .pure ⟨.cursor c, rfl, hread⟩

/-- A request that finds nothing plays no part in a mismatch. -/
theorem HasMismatch.append_right {results : List Binding} {u v : Trace S P L C}
    (h : HasMismatch results v) (hu : fetched u = []) : HasMismatch results (u ++ v) := by
  rw [HasMismatch, fetched_append, hu]
  exact h

theorem HasMismatch.here {b : Binding} {u : Trace S P L C} {found : Fetched L C}
    (hfound : fetched u = [found]) (h : b.family.admits found = false) (rest : List Binding) :
    HasMismatch (b :: rest) u := by
  refine ⟨(b, found), ?_, h⟩
  rw [hfound, List.zip_cons_cons]
  exact List.mem_cons_self

theorem HasMismatch.later {b : Binding} {rest : List Binding} {u v : Trace S P L C}
    {finding : Finding L C} {p : P} (hu : Consists u (finding.retrieval p))
    (h : HasMismatch rest v) : HasMismatch (b :: rest) (u ++ v) := by
  obtain ⟨x, hx, hmismatch⟩ := h
  obtain ⟨found, hfound⟩ := List.length_eq_one_iff.mp (finding.length_fetched_retrieval p)
  refine ⟨x, ?_, hmismatch⟩
  rw [fetched_append, hu.fetched_eq, hfound, List.cons_append, List.zip_cons_cons]
  exact List.mem_cons_of_mem _ hx

/-- **Extracting the outputs.** If all can be extracted, each has had its own retrieval. -/
theorem records_extractAll_exchanges {parts : List (Part P)}
    (hresolved : ∀ part ∈ parts, part.binding.Resolved) (hapt : ∀ part ∈ parts, part.Apt) :
    Records (d.recorded.extractAll (parts.map fun part => (part.binding, part.bind))).run
      (d.extractAll (parts.map fun part => (part.binding, part.bind))).run s fun u r =>
      match r with
      | .ok outputs => ∃ found : List (Slot P × Finding L C),
          found.map (·.1) = parts.filterMap Part.slot? ∧
          found.map (fun x => (x.1.binding.name, x.2.output)) = outputs ∧
          Consists u (found.flatMap fun x => x.2.retrieval x.1.placeholder)
      | .error _ =>
        HasRefusal u ∨ HasMismatch ((parts.filterMap Part.slot?).map (·.binding)) u := by
  induction parts generalizing s with
  | nil => exact .pure ⟨[], rfl, rfl, .nil⟩
  | cons part rest ih =>
    obtain ⟨hb, hrest⟩ := List.forall_mem_cons.mp hresolved
    obtain ⟨hpart, happts⟩ := List.forall_mem_cons.mp hapt
    obtain ⟨b, input, placeholder?⟩ := part
    simp only [List.map_cons, Driver.extractAll, hb.extract_eq_nothing_iff]
    cases placeholder? with
    | none =>
      have houtput : b.producesOutput = false := Eq.symm hpart
      rw [if_pos houtput, if_pos houtput]
      exact ih s hrest happts
    | some p =>
      have houtput : b.producesOutput = true := Eq.symm hpart
      have hslots : (⟨b, input, some p⟩ :: rest : List (Part P)).filterMap Part.slot? =
          ⟨b, p⟩ :: rest.filterMap Part.slot? := rfl
      have hne : ¬ b.producesOutput = false := by simp [houtput]
      rw [if_neg hne, if_neg hne, hslots]
      refine .bind_session (records_extract_exchanges d s hb houtput p) ?_ ?_
      · rintro u e (h | ⟨found, hfound, h⟩)
        · exact .inl h
        · exact .inr (.here hfound h _)
      · rintro u output after - ⟨finding, rfl, hu⟩
        refine .bind_session (ih after hrest happts) ?_ ?_
        · rintro v e (h | h)
          · exact .inl (h.append_right u)
          · exact .inr (.later hu h)
        · rintro v outputs later - ⟨found, hfound, rfl, hv⟩
          refine .pure ⟨(⟨b, p⟩, finding) :: found, ?_, rfl, ?_⟩
          · rw [List.map_cons, hfound]
          · rw [List.append_nil, List.flatMap_cons]
            exact hu.append hv

/-! ## Release -/

theorem records_releaseAll_exchanges (ps : List P) :
    Records (d.recorded.releaseAll ps).run (d.releaseAll ps).run s fun u r =>
      match r with
      | .ok _ => Consists u (ps.map fun p => ⟨.release p, ()⟩)
      | .error _ => HasRefusal u := by
  induction ps generalizing s with
  | nil => exact .pure .nil
  | cons p rest ih =>
    simp only [Driver.releaseAll]
    refine .bind_session (.ask d _) ?_ ?_
    · rintro u e ⟨rfl, -⟩
      exact .single s _ e
    · rintro u _ after - ⟨rfl, -⟩
      refine (ih after).mono fun v r h => ?_
      cases r with
      | ok _ => exact .cons h
      | error e => exact HasRefusal.append_right h _

/-! ## Call -/

section Call

variable {m : CallModel} {parts : List (Part P)} (harguments : parts.map (·.binding) = m.arguments)
  (hresolved : ∀ b ∈ m.arguments, b.Resolved) (hapt : ∀ part ∈ parts, part.Apt)

include harguments hresolved hapt

/-- What is extracted from the binds of the call. -/
theorem records_extractAll_zip_exchanges :
    Records (d.recorded.extractAll (m.arguments.zip (parts.map Part.bind))).run
      (d.extractAll (m.arguments.zip (parts.map Part.bind))).run s fun u r =>
      match r with
      | .ok outputs => ∃ found : List (Slot P × Finding L C),
          found.map (·.1) = parts.filterMap Part.slot? ∧
          found.map (·.2.output) = outputs.map (·.2) ∧
          outputs.map (·.1) = m.outputs.map (·.name) ∧
          Consists u (found.flatMap fun x => x.2.retrieval x.1.placeholder)
      | .error _ => HasRefusal u ∨ HasMismatch m.outputs u := by
  have houtputs : (parts.filterMap Part.slot?).map (·.binding) = m.outputs := by
    rw [Part.map_binding_slot? hapt, harguments, CallModel.outputs]
  have hparts : ∀ part ∈ parts, part.binding.Resolved := by
    intro part hpart
    refine hresolved _ ?_
    rw [← harguments]
    exact List.mem_map_of_mem hpart
  rw [← houtputs, ← harguments, List.zip_map']
  refine (records_extractAll_exchanges d s hparts hapt).mono fun u r h => ?_
  cases r with
  | error e => exact h
  | ok outputs =>
    obtain ⟨found, hfound, rfl, hu⟩ := h
    refine ⟨found, hfound, by simp, ?_, hu⟩
    rw [← hfound]
    simp [Binding.name]

/-- What a function returns is extracted first, from a placeholder of its own. -/
theorem records_extractReturned_exchanges {returned : Binding} (hreturned : returned.Resolved)
    (houtput : returned.producesOutput = true) (p : P) :
    Records
      (ExceptT.run do
        let value ← d.recorded.extract returned p
        return (⟨some value, ← d.recorded.extractAll
          (m.arguments.zip (parts.map Part.bind))⟩ : Outcome C))
      (ExceptT.run do
        let value ← d.extract returned p
        return (⟨some value, ← d.extractAll (m.arguments.zip (parts.map Part.bind))⟩ : Outcome C))
      s fun u r =>
      match r with
      | .ok outcome => ∃ found : List (Slot P × Finding L C),
          found.map (·.1) = ⟨returned, p⟩ :: parts.filterMap Part.slot? ∧
          found.map (·.2.output) = outcome.values ∧
          outcome.outputs.map (·.1) = m.outputs.map (·.name) ∧
          Consists u (found.flatMap fun x => x.2.retrieval x.1.placeholder)
      | .error _ => HasRefusal u ∨ HasMismatch (returned :: m.outputs) u := by
  refine .bind_session (records_extract_exchanges d s hreturned houtput p) ?_ ?_
  · rintro u e (h | ⟨found, hfound, h⟩)
    · exact .inl h
    · exact .inr (.here hfound h _)
  · rintro u value after - ⟨finding, rfl, hu⟩
    refine .bind_session
      (records_extractAll_zip_exchanges d after harguments hresolved hapt) ?_ ?_
    · rintro v e (h | h)
      · exact .inl (h.append_right u)
      · exact .inr (.later hu h)
    · rintro v outputs later - ⟨found, hfound, houtputs, hnames, hv⟩
      refine .pure ⟨(⟨returned, p⟩, finding) :: found, ?_, ?_, hnames, ?_⟩
      · rw [List.map_cons, hfound]
      · rw [List.map_cons, houtputs]
        rfl
      · rw [List.append_nil, List.flatMap_cons]
        exact hu.append hv

/-- The routine was called as in a dialogue, which leaves its placeholders to be released. -/
def Invoked (m : CallModel) (parts : List (Part P)) (u : Trace S P L C)
    (r : Except Error (Outcome C) × List P) : Prop :=
  ∃ (c : Dialogue P L C) (outcome : Outcome C), c.parts = parts ∧
    c.returned?.map (·.binding) = m.returnValue ∧ c.found.map (·.1) = c.slots ∧
    r = (.ok outcome, c.slots.map (·.placeholder)) ∧
    outcome.values = c.found.map (·.2.output) ∧
    outcome.outputs.map (·.1) = m.outputs.map (·.name) ∧
    Consists u (c.invocation m.name ++ c.found.flatMap fun x => x.2.retrieval x.1.placeholder)

theorem records_invoke_procedure_dialogue (hm : m.returnValue = none) :
    Records (d.recorded.invoke m (parts.map Part.bind)) (d.invoke m (parts.map Part.bind)) s
      fun u r => Smooth m.results u → Invoked m parts u r := by
  have hresults : m.results = m.outputs := by
    rw [CallModel.results, hm]
    rfl
  unfold Driver.invoke
  rw [hm]
  refine (Records.ask d _).bind fun u a after _ h => ?_
  obtain ⟨rfl, -⟩ := h
  cases a with
  | error e => exact .pure fun h => absurd (.single s _ e) h.not_hasRefusal
  | ok reply =>
    obtain ⟨left, hlength⟩ := reply
    by_cases hleft : left = parts.map Part.bind
    · subst hleft
      refine (records_extractAll_zip_exchanges d after harguments hresolved hapt).bind
        fun v outputs later _ hv => .pure fun h => ?_
      rw [List.append_nil] at h ⊢
      cases outputs with
      | error e =>
        rcases hv with hv | hv
        · exact absurd (hv.append_right _) h.not_hasRefusal
        · rw [hresults] at h
          exact absurd (hv.append_right rfl) h.not_hasMismatch
      | ok outputs =>
        obtain ⟨found, hfound, houtputs, hnames, hv⟩ := hv
        refine ⟨⟨parts, none, found⟩, ⟨none, outputs⟩, rfl, hm.symm, hfound, ?_, houtputs.symm,
          hnames, ?_⟩
        · rw [Part.filterMap_placeholder?_bind]
          rfl
        · exact .cons hv
    · -- the binds were replaced
      refine (records_extractAll_zip d after m.arguments left).bind
        fun v outputs later _ _ => .pure fun h => ?_
      exact absurd (h.keeps_binds _ List.mem_cons_self) hleft

theorem records_invoke_function_dialogue {returned : Binding} (hm : m.returnValue = some returned)
    (hreturned : returned.Resolved) (houtput : returned.producesOutput = true) :
    Records (d.recorded.invoke m (parts.map Part.bind)) (d.invoke m (parts.map Part.bind)) s
      fun u r => Smooth m.results u → Invoked m parts u r := by
  have hresults : m.results = returned :: m.outputs := by
    rw [CallModel.results, hm]
    rfl
  unfold Driver.invoke
  rw [hm]
  refine (Records.ask d _).bind fun u a after _ h => ?_
  obtain ⟨rfl, -⟩ := h
  cases a with
  | error e => exact .pure fun h => absurd (.single s _ e) h.not_hasRefusal
  | ok p =>
    refine (Records.ask d _).bind fun v a later _ h => ?_
    obtain ⟨rfl, -⟩ := h
    cases a with
    | error e =>
      exact .pure fun h => absurd (.append_right (.single after _ e) _) h.not_hasRefusal
    | ok reply =>
      obtain ⟨left, hlength⟩ := reply
      by_cases hleft : left = parts.map Part.bind
      · subst hleft
        refine (records_extractReturned_exchanges d later harguments hresolved hapt hreturned
          houtput p).bind fun w outcome last _ hw => .pure fun h => ?_
        rw [List.append_nil] at h ⊢
        cases outcome with
        | error e =>
          rcases hw with hw | hw
          · exact absurd ((hw.append_right _).append_right _) h.not_hasRefusal
          · rw [hresults] at h
            exact absurd ((hw.append_right rfl).append_right rfl) h.not_hasMismatch
        | ok outcome =>
          obtain ⟨found, hfound, hvalues, hnames, hw⟩ := hw
          refine ⟨⟨parts, some ⟨returned, p⟩, found⟩, outcome, rfl, hm.symm, hfound, ?_,
            hvalues.symm, hnames, ?_⟩
          · rw [Part.filterMap_placeholder?_bind]
            rfl
          · exact .cons (.cons hw)
      · -- the binds were replaced
        refine (records_extractReturned d later m.arguments left returned p).bind
          fun w outcome last _ _ => .pure fun h => ?_
        exact absurd (h.keeps_binds _ (List.mem_cons_of_mem _ List.mem_cons_self)) hleft

end Call

section Execution

variable {types : TypeTable} {declaration : Declaration} {m : CallModel}
  (hmodel : CallModel.ofDeclaration types declaration = .ok m) {inputs : List Value}
  (hinputs : inputs.length = m.inputArity)

include hmodel hinputs

/-- **Preparation, call and retrieval.** -/
theorem records_call_dialogue :
    Records (d.recorded.call m inputs) (d.call m inputs) s fun u r =>
      Smooth m.results u → ∃ (c : Dialogue P L C) (outcome : Outcome C), c.IsAbout m inputs ∧
        r = (.ok outcome, c.slots.map (·.placeholder)) ∧
        outcome.values = c.found.map (·.2.output) ∧
        outcome.outputs.map (·.1) = m.outputs.map (·.name) ∧
        Consists u (c.parts.flatMap Part.preparation ++ (c.invocation m.name ++
          c.found.flatMap fun x => x.2.retrieval x.1.placeholder)) := by
  have hresolved := CallModel.arguments_resolved hmodel
  unfold Driver.call
  refine (records_prepareAll_exchanges d s hresolved hinputs).bind fun u r after _ hr => ?_
  obtain ⟨binds, e | _⟩ := r
  · exact .pure fun h => absurd (HasRefusal.append_left hr _) h.not_hasRefusal
  · obtain ⟨parts, harguments, hown, hapt, rfl, hu⟩ := hr
    have hfetched : fetched u = [] := by
      rw [hu.fetched_eq, List.filterMap_flatMap]
      simp [Part.fetched_preparation]
    have hinvoke : Records (d.recorded.invoke m (parts.map Part.bind))
        (d.invoke m (parts.map Part.bind)) after fun u r =>
          Smooth m.results u → Invoked m parts u r := by
      cases hm : m.returnValue with
      | none => exact records_invoke_procedure_dialogue d after harguments hresolved hapt hm
      | some returned =>
        obtain ⟨hreturned, -⟩ := CallModel.returnValue_resolved hmodel returned hm
        have houtput := CallModel.producesOutput_of_mem_returnValue hmodel returned hm
        exact records_invoke_function_dialogue d after harguments hresolved hapt hm hreturned
          houtput
    refine hinvoke.mono fun v r hv h => ?_
    obtain ⟨c, outcome, rfl, hreturned, hfound, rfl, hvalues, hnames, hv⟩ :=
      hv (h.of_append_right hfetched)
    exact ⟨c, outcome, ⟨harguments, hown, hapt, hreturned, hfound⟩, rfl, hvalues, hnames,
      hu.append hv⟩

/-- **The dialogue of a call.** If the model is made from a declaration, there is an input for each
argument that takes one, and nothing goes wrong, the trace consists of the exchanges of a dialogue
about the model with the inputs, and the outcome is made of what is found. -/
theorem exists_dialogue (hsmooth : Smooth m.results (d.trace m inputs s)) :
    ∃ c : Dialogue P L C, c.IsAbout m inputs ∧
      Consists (d.trace m inputs s) (c.exchanges m.name) ∧
      ∃ outcome : Outcome C, ((d.execute m inputs).run.run s).1 = .ok outcome ∧
        outcome.values = c.found.map (·.2.output) ∧
        outcome.outputs.map (·.1) = m.outputs.map (·.name) := by
  have hexecute : Records (d.recorded.execute m inputs).run (d.execute m inputs).run s fun u r =>
      Smooth m.results u → ∃ c : Dialogue P L C, c.IsAbout m inputs ∧
        Consists u (c.exchanges m.name) ∧ ∃ outcome : Outcome C, r = .ok outcome ∧
          outcome.values = c.found.map (·.2.output) ∧
          outcome.outputs.map (·.1) = m.outputs.map (·.name) := by
    rw [Driver.run_execute _ hinputs, Driver.run_execute _ hinputs]
    refine (records_call_dialogue d s hmodel hinputs).bind fun u r after _ hu => ?_
    refine (records_releaseAll_exchanges d after r.2).bind fun v released later _ hv => .pure
      fun h => ?_
    rw [List.append_nil] at h ⊢
    cases released with
    | error e => exact absurd (hv.append_right u) h.not_hasRefusal
    | ok _ =>
      have hfetched : fetched v = [] := by
        rw [hv.fetched_eq]
        simp [Exchange.fetched?]
      obtain ⟨c, outcome, habout, rfl, hvalues, hnames, hu⟩ := hu (h.of_append_left hfetched)
      refine ⟨c, habout, ?_, outcome, rfl, hvalues, hnames⟩
      rw [Dialogue.exchanges, List.append_assoc _ (c.invocation _)]
      refine hu.append ?_
      rwa [List.map_map] at hv
  exact hexecute.trace hsmooth

end Execution

end Executor

/-- A function with arguments of every family and direction. The input for the cursor is used up,
and used for nothing. -/
theorem exists_dialogue_of_every_family :
    let types : TypeTable := ⟨"oracle", [("number", ⟨"NUMBER", .scalar⟩),
      ("clob", ⟨"CLOB", .largeObject⟩), ("sys_refcursor", ⟨"CURSOR", .cursor⟩)], by decide⟩
    let a : Argument := ⟨"a", .inOut, true, "sys_refcursor", none⟩
    let b : Argument := ⟨"b", .into, false, "number", none⟩
    let c : Argument := ⟨"c", .out, true, "number", none⟩
    let e : Argument := ⟨"e", .inOut, true, "clob", none⟩
    let declaration : Declaration := .function "F" [a, b, c, e] "clob"
    let m : CallModel := ⟨"F", [⟨a, "CURSOR", .cursor, .forParameter .cursor .inOut⟩,
      ⟨b, "NUMBER", .scalar, .forParameter .scalar .into⟩,
      ⟨c, "NUMBER", .scalar, .forParameter .scalar .out⟩,
      ⟨e, "CLOB", .largeObject, .forParameter .largeObject .inOut⟩],
      some ⟨CallModel.returnArgument "clob", "CLOB", .largeObject, .forReturn .largeObject⟩,
      declaration⟩
    let inputs : List Value := [.int 1, .int 2, .text "x"]
    let d := Rehearsal.driver
      ⟨[], [.locator (.text "y"), .cursor ⟨[]⟩, .value (.int 3), .value .null], []⟩
    CallModel.ofDeclaration types declaration = .ok m ∧ inputs.length = m.inputArity ∧
      Smooth m.results (d.trace m inputs .empty) ∧
      (d.trace m inputs .empty).map Event.request =
        [.allocate "CURSOR" .cursor, .allocate "NUMBER" .scalar, .allocate "CLOB" .largeObject,
          .seed 2 (.text "x"), .allocate "CLOB" .largeObject,
          .callFunction "F" 3 [.placeholder 0, .value (.int 2), .placeholder 1, .placeholder 2],
          .read 3, .materialize (.text "y"), .read 0, .read 1, .read 2,
          .release 3, .release 0, .release 1, .release 2] ∧
      ∃ dialogue : Dialogue Nat Value Rehearsal.Cursor, dialogue.IsAbout m inputs ∧
        Consists (d.trace m inputs .empty) (dialogue.exchanges "F") ∧
        ∃ outcome, ((d.execute m inputs).run.run .empty).1 = .ok outcome ∧
          outcome.values = dialogue.found.map (·.2.output) ∧
          outcome.outputs.map (·.1) = ["a", "c", "e"] := by
  intro types a b c e declaration m inputs d
  have hmodel : CallModel.ofDeclaration types declaration = .ok m := by decide
  have hsmooth : Smooth m.results (d.trace m inputs .empty) :=
    ⟨by decide +kernel, by decide +kernel, by decide +kernel⟩
  exact ⟨hmodel, rfl, hsmooth, by decide +kernel, exists_dialogue d .empty hmodel rfl hsmooth⟩

end StoredRoutine
