import StoredRoutine.Proofs.Session.FirstFailure
import StoredRoutine.Proofs.Session.Invariant

/-!
# The shape of an outcome

What an execution returns is laid down by its call model: whether there is a returned value, which
outputs there are and in what order, and which of them are rows. No driver can change that. All it
can do, short of refusing requests, is to make the execution fail, by what its reads find and by the
binds that it replaces during the call.

After a call every result stands next to what is bound to it (`CallModel.due`), and the results are
extracted one after the other, each by one read, until one cannot be. `Settles` says what becomes of
them, step by step. Nothing in it depends on the driver but the binds that are left and what the
reads find, so these decide whether the execution fails, and with which error (`execute_shape`).
-/

namespace StoredRoutine

variable {S P L C : Type}

/-! ## Reads and binds of a trace -/

namespace Event

/-- The placeholder that is read and what is found in it. -/
def read? : Event S P L C → Option (P × Fetched L C)
  | ⟨_, .read p, .ok found⟩ => some (p, found)
  | _ => none

/-- What is bound when a call is over: the placeholder for what a function returns, and then the
arguments, as the call leaves them. -/
def left : Event S P L C → List (Bind P)
  | ⟨_, .callProcedure .., .ok binds⟩ => binds.val
  | ⟨_, .callFunction _ returns _, .ok binds⟩ => .placeholder returns :: binds.val
  | _ => []

theorem read?_eq_none {e : Event S P L C} (h : e.request.phase ≠ .extract) : e.read? = none := by
  obtain ⟨before, r, answer⟩ := e
  cases r with
  | read p => exact absurd rfl h
  | _ => rfl

theorem left_eq_nil {e : Event S P L C} (h : e.request.phase ≠ .invoke) : e.left = [] := by
  obtain ⟨before, r, answer⟩ := e
  cases r with
  | callProcedure name binds => exact absurd rfl h
  | callFunction name returns binds => exact absurd rfl h
  | _ => rfl

end Event

/-- The reads of a trace that are granted, with what they find, in order. -/
def reads (t : Trace S P L C) : List (P × Fetched L C) := t.filterMap Event.read?

/-- What is bound after the call in a trace. -/
def leftBinds (t : Trace S P L C) : List (Bind P) := t.flatMap Event.left

theorem reads_append (t u : Trace S P L C) : reads (t ++ u) = reads t ++ reads u :=
  List.filterMap_append

theorem leftBinds_append (t u : Trace S P L C) :
    leftBinds (t ++ u) = leftBinds t ++ leftBinds u := List.flatMap_append

theorem InPhase.reads_eq_nil {phase : Phase} {t : Trace S P L C} (h : InPhase phase t)
    (hphase : phase ≠ .extract) : reads t = [] :=
  List.filterMap_eq_nil_iff.mpr fun e he => Event.read?_eq_none (by rwa [h e he])

theorem InPhase.leftBinds_eq_nil {phase : Phase} {t : Trace S P L C} (h : InPhase phase t)
    (hphase : phase ≠ .invoke) : leftBinds t = [] :=
  List.flatMap_eq_nil_iff.mpr fun e he => Event.left_eq_nil (by rwa [h e he])

/-- What comes after a call changes nothing about what it leaves. -/
theorem InPhase.leftBinds_cons {t : Trace S P L C} (h : InPhase .extract t) (e : Event S P L C) :
    leftBinds (e :: t) = e.left := by
  have hnil : leftBinds t = [] := h.leftBinds_eq_nil (by decide)
  exact (congrArg (e.left ++ ·) hnil).trans (List.append_nil _)

/-! ## What becomes of the results -/

/-- Are rows handed out, and not a value? -/
def Output.isRows : Output C → Bool
  | .rows _ => true
  | .value _ => false

/-- The output is of the kind that belongs to the family. -/
def Output.Suits (output : Output C) (family : Family) : Prop :=
  output.isRows = true ↔ family = .cursor

/-- The error for a plain value in the place of the placeholder of a result. -/
def Binding.replaced (b : Binding) : Error :=
  .ofCause (.protocolMismatch b.name b.family "value")

/-- **What becomes of results**, given what is bound to them, with the reads that are made: they are
extracted in order up to the first that has lost its placeholder or whose read finds what does not
suit its family. -/
inductive Settles : List (Binding × Bind P) → List (P × Fetched L C) →
    Except Error (List (Output C)) → Prop
  | nil : Settles [] [] (.ok [])
  | replaced (b : Binding) (v : Value) (rest : List (Binding × Bind P)) :
    Settles ((b, .value v) :: rest) [] (.error b.replaced)
  | unsuited {b : Binding} {found : Fetched L C} (p : P) (rest : List (Binding × Bind P))
    (h : b.family.admits found = false) :
    Settles ((b, .placeholder p) :: rest) [(p, found)] (.error (b.mismatch found))
  | read {b : Binding} {found : Fetched L C} {output : Output C} (p : P)
    {rest : List (Binding × Bind P)} {others : List (P × Fetched L C)}
    {r : Except Error (List (Output C))} (h : b.family.admits found = true)
    (houtput : output.Suits b.family) (hrest : Settles rest others r) :
    Settles ((b, .placeholder p) :: rest) ((p, found) :: others) (r.map (output :: ·))

/-- The error for the first of the results that cannot be extracted. -/
def firstMismatch? : List (Binding × Bind P) → List (Fetched L C) → Option Error
  | [], _ => none
  | (b, .value _) :: _, _ => some b.replaced
  | (_, .placeholder _) :: _, [] => none
  | (b, .placeholder _) :: rest, found :: others =>
    if b.family.admits found then firstMismatch? rest others else some (b.mismatch found)

namespace Settles

variable {due : List (Binding × Bind P)} {found : List (P × Fetched L C)}
  {r : Except Error (List (Output C))}

/-- Every output that comes back is of the kind of its result. -/
theorem suits {outputs : List (Output C)} (h : Settles due found (.ok outputs)) :
    List.Forall₂ (fun b output => output.Suits b.family) (due.map (·.1)) outputs := by
  generalize hr : (Except.ok outputs : Except Error (List (Output C))) = r at h
  induction h generalizing outputs with
  | nil =>
    cases hr
    exact .nil
  | replaced => cases hr
  | unsuited => cases hr
  | @read b found output p rest others r _ houtput _ ih =>
    cases r with
    | error e => cases hr
    | ok outputs' =>
      cases hr
      exact .cons houtput (ih rfl)

/-- The placeholders of the results are read in order, up to a point. -/
theorem placeholders_isPrefix (h : Settles due found r) :
    found.map (·.1) <+: due.filterMap (·.2.placeholder?) := by
  induction h with
  | nil => exact List.prefix_rfl
  | replaced => exact List.nil_prefix
  | unsuited p rest _ => exact List.prefix_append [p] _
  | read p _ _ _ ih => exact (List.prefix_cons_inj p).mpr ih

/-- If nothing fails, all of them are. -/
theorem placeholders_eq {outputs : List (Output C)} (h : Settles due found (.ok outputs)) :
    found.map (·.1) = due.filterMap (·.2.placeholder?) := by
  generalize hr : (Except.ok outputs : Except Error (List (Output C))) = r at h
  induction h generalizing outputs with
  | nil => rfl
  | replaced => cases hr
  | unsuited => cases hr
  | @read b found output p rest others r _ _ _ ih =>
    cases r with
    | error e => cases hr
    | ok outputs' => exact congrArg (p :: ·) (ih rfl)

/-- **The error is that of the first mismatch.** -/
theorem eq_error_iff (h : Settles due found r) (e : Error) :
    r = .error e ↔ firstMismatch? due (found.map (·.2)) = some e := by
  induction h with
  | nil => exact iff_of_false nofun nofun
  | replaced b v rest =>
    rw [firstMismatch?, Except.error.injEq, Option.some.injEq]
  | unsuited p rest h =>
    rw [List.map_cons, firstMismatch?, if_neg (ne_true_of_eq_false h), Except.error.injEq,
      Option.some.injEq]
  | @read b found output p rest others r h houtput _ ih =>
    rw [List.map_cons, firstMismatch?, if_pos h, ← ih, map_eq_error_iff]

/-- **There is an error** exactly if a result has lost its placeholder or a read finds what does
not suit the result that it is for. -/
theorem exists_error_iff (h : Settles due found r) :
    (∃ e, r = .error e) ↔ (∃ x ∈ due, x.2.placeholder? = none) ∨
      ∃ x ∈ (due.map (·.1)).zip (found.map (·.2)), x.1.family.admits x.2 = false := by
  induction h with
  | nil => simp
  | replaced b v rest =>
    exact iff_of_true ⟨_, rfl⟩ (.inl ⟨_, List.mem_cons_self, rfl⟩)
  | unsuited p rest h =>
    exact iff_of_true ⟨_, rfl⟩ (.inr ⟨_, List.mem_cons_self, h⟩)
  | @read b found output p rest others r h houtput _ ih =>
    simp only [map_eq_error_iff]
    rw [ih]
    simp [h]

end Settles

/-! ## What a call comes to -/

/-- The pairs that come back, each with what is bound to it. -/
def returning (pairs : List (Binding × Bind P)) : List (Binding × Bind P) :=
  pairs.filter (·.1.producesOutput)

theorem map_fst_returning_zip {bindings : List Binding} {left : List (Bind P)}
    (h : left.length = bindings.length) :
    (returning (bindings.zip left)).map (·.1) = bindings.filter (·.producesOutput) := by
  have hfst : (bindings.zip left).map (·.1) = bindings := List.map_fst_zip h.ge
  conv_rhs => rw [← hfst, List.filter_map]
  rfl

theorem CallModel.map_name_returning_zip {m : CallModel} {left : List (Bind P)}
    (h : left.length = m.arguments.length) :
    (returning (m.arguments.zip left)).map (·.1.name) = m.outputs.map (·.name) := by
  rw [outputs, ← map_fst_returning_zip h, List.map_map]
  rfl

/-- The outputs were extracted from the pairs, and have their names. -/
structure Extracted (pairs : List (Binding × Bind P)) (t : Trace S P L C)
    (r : Except Error (List (String × Output C))) : Prop where
  settles : Settles (returning pairs) (reads t) (r.map (·.map (·.2)))
  names : ∀ outputs, r = .ok outputs → outputs.map (·.1) = (returning pairs).map (·.1.name)

/-- The results of a call of the model, each with what is bound to it when the call is over. -/
def CallModel.due (m : CallModel) (left : List (Bind P)) : List (Binding × Bind P) :=
  returning ((m.returnValue.toList ++ m.arguments).zip left)

/-- There is a result for each binding with an output, in order. -/
theorem CallModel.map_fst_due {m : CallModel} {left : List (Bind P)}
    (hreturned : ∀ b ∈ m.returnValue, b.producesOutput = true)
    (h : left.length = (m.returnValue.toList ++ m.arguments).length) :
    (m.due left).map (·.1) = m.results := by
  have hall : m.returnValue.toList.filter (·.producesOutput) = m.returnValue.toList :=
    List.filter_eq_self.mpr fun b hb => hreturned b (Option.mem_toList.mp hb)
  rw [due, map_fst_returning_zip h, List.filter_append, hall]
  rfl

/-- The outcome has a returned value and outputs as the model has them. -/
structure Outcome.Fits (outcome : Outcome C) (m : CallModel) : Prop where
  returnValue : outcome.returnValue.isSome = m.isFunction
  names : outcome.outputs.map (·.1) = m.outputs.map (·.name)

theorem Outcome.Fits.arity_eq {outcome : Outcome C} {m : CallModel} (h : outcome.Fits m) :
    outcome.arity = m.resultArity := by
  have hreturned : outcome.returnValue.toList.length = m.returnValue.toList.length := by
    rw [Option.length_toList, Option.length_toList, h.returnValue]
    rfl
  have houtputs : outcome.outputs.length = m.outputs.length := by
    simpa using congrArg List.length h.names
  rw [Outcome.arity, hreturned, houtputs, CallModel.resultArity]

/-- **What the call of a routine comes to**, if it is granted, with what it leaves bound and what
the reads find. -/
structure Concludes (m : CallModel) (left : List (Bind P)) (found : List (P × Fetched L C))
    (r : Except Error (Outcome C)) : Prop where
  length_eq : left.length = (m.returnValue.toList ++ m.arguments).length
  settles : Settles (m.due left) found (r.map Outcome.values)
  fits : ∀ outcome, r = .ok outcome → outcome.Fits m

namespace Concludes

variable {m : CallModel} {left : List (Bind P)}

/-- A procedure has nothing but its outputs. -/
theorem procedure {t : Trace S P L C} {r : Except Error (List (String × Output C))}
    (hm : m.returnValue = none) (hlength : left.length = m.arguments.length)
    (h : Extracted (m.arguments.zip left) t r) :
    Concludes m left (reads t) (r.map (⟨none, ·⟩)) := by
  have hdue : m.due left = returning (m.arguments.zip left) := by
    rw [CallModel.due, hm]
    rfl
  refine ⟨by rw [hm]; exact hlength, ?_, fun outcome ho => ?_⟩
  · rw [hdue]
    cases r with
    | error e => exact h.settles
    | ok outputs => exact h.settles
  · cases r with
    | error e => cases ho
    | ok outputs =>
      cases ho
      exact ⟨by rw [CallModel.isFunction, hm]; rfl,
        (h.names outputs rfl).trans (CallModel.map_name_returning_zip hlength)⟩

/-- For a function the value that is returned comes before them. -/
theorem function {returned : Binding} {p : P} {found : List (P × Fetched L C)}
    {r : Except Error (Outcome C)} (hm : m.returnValue = some returned)
    (houtput : returned.producesOutput = true) (hlength : left.length = m.arguments.length)
    (h : Settles ((returned, .placeholder p) :: returning (m.arguments.zip left)) found
      (r.map Outcome.values))
    (hnames : ∀ outcome, r = .ok outcome → ∃ output outputs, outcome = ⟨some output, outputs⟩ ∧
      outputs.map (·.1) = (returning (m.arguments.zip left)).map (·.1.name)) :
    Concludes m (.placeholder p :: left) found r := by
  have hdue : m.due (.placeholder p :: left) =
      (returned, .placeholder p) :: returning (m.arguments.zip left) := by
    rw [CallModel.due, hm]
    exact List.filter_cons_of_pos houtput
  refine ⟨by rw [hm]; exact congrArg (· + 1) hlength, hdue ▸ h, fun outcome ho => ?_⟩
  obtain ⟨output, outputs, rfl, hfst⟩ := hnames outcome ho
  exact ⟨by rw [CallModel.isFunction, hm]; rfl,
    hfst.trans (CallModel.map_name_returning_zip hlength)⟩

end Concludes

/-! ## Extract -/

/-- The computation failed because a request was refused. -/
def Refused {α : Type} (t : Trace S P L C) (r : Except Error α) : Prop :=
  HasRefusal t ∧ ∃ e, r = .error e

theorem Refused.append_right {α : Type} {u : Trace S P L C} {r : Except Error α}
    (h : Refused u r) (t : Trace S P L C) : Refused (t ++ u) r :=
  ⟨h.1.append_right t, h.2⟩

/-- The result of an extraction that finds this in the placeholder. -/
def Yields (b : Binding) (found : Fetched L C) : Except Error (Output C) → Prop
  | .ok output => b.family.admits found = true ∧ output.Suits b.family
  | .error e => b.family.admits found = false ∧ e = b.mismatch found

section Executor

variable (d : Driver S P L C) (s : S)

/-- **Extracting a result** makes one read, which decides what it comes to. -/
theorem records_extract_yields {b : Binding} (hb : b.Resolved)
    (houtput : b.producesOutput = true) (p : P) :
    Records (d.recorded.extract b p).run (d.extract b p).run s fun u r =>
      (∃ found, reads u = [(p, found)] ∧ Yields b found r) ∨ Refused u r := by
  rw [hb.extract_eq d.recorded houtput, hb.extract_eq d houtput]
  refine .bind_session (.ask d _) ?_ ?_
  · rintro u e ⟨rfl, -⟩
    exact .inr ⟨.single s _ e, e, rfl⟩
  · rintro u found after - ⟨rfl, -⟩
    cases hadmits : b.family.admits found with
    | false => exact .pure (.inl ⟨found, rfl, hadmits, rfl⟩)
    | true =>
      cases found with
      | value v =>
        have hsuits : (Output.value v : Output C).Suits b.family := by
          refine iff_of_false nofun fun hfamily => ?_
          rw [hfamily] at hadmits
          cases hadmits
        exact .pure (.inl ⟨.value v, rfl, hadmits, hsuits⟩)
      | locator l =>
        have hsuits : ∀ content : Value, (Output.value content : Output C).Suits b.family := by
          refine fun content => iff_of_false nofun fun hfamily => ?_
          rw [hfamily] at hadmits
          cases hadmits
        refine .bind_session (.ask d _) ?_ ?_
        · rintro v e ⟨rfl, -⟩
          exact .inr ⟨.append_right (.single after _ e) _, e, rfl⟩
        · rintro v content later - ⟨rfl, -⟩
          exact .pure (.inl ⟨.locator l, rfl, hadmits, hsuits content⟩)
      | cursor c =>
        have hsuits : (Output.rows (.ofCursor c)).Suits b.family := by
          refine iff_of_true rfl ?_
          cases hfamily : b.family with
          | cursor => rfl
          | scalar =>
            rw [hfamily] at hadmits
            cases hadmits
          | largeObject =>
            rw [hfamily] at hadmits
            cases hadmits
        exact .pure (.inl ⟨.cursor c, rfl, hadmits, hsuits⟩)

/-- **One result before the outputs.** It is `k` that puts them together, and `values` that takes
them apart again. -/
theorem records_extract_before {α : Type} {b : Binding} (hb : b.Resolved)
    (houtput : b.producesOutput = true) (p : P) {pairs : List (Binding × Bind P)}
    (hpairs : ∀ after, Records (d.recorded.extractAll pairs).run (d.extractAll pairs).run after
      fun u r => Extracted pairs u r ∨ Refused u r)
    (k : Output C → List (String × Output C) → α) (values : α → List (Output C))
    (hvalues : ∀ output outputs, values (k output outputs) = output :: outputs.map (·.2)) :
    Records
      (ExceptT.run do
        let output ← d.recorded.extract b p
        return k output (← d.recorded.extractAll pairs))
      (ExceptT.run do
        let output ← d.extract b p
        return k output (← d.extractAll pairs)) s fun u r =>
      (Settles ((b, .placeholder p) :: returning pairs) (reads u) (r.map values) ∧
        ∀ a, r = .ok a → ∃ output outputs, a = k output outputs ∧
          outputs.map (·.1) = (returning pairs).map (·.1.name)) ∨ Refused u r := by
  refine .bind_session (records_extract_yields d s hb houtput p) ?_ ?_
  · rintro u e (⟨found, hread, hadmits, rfl⟩ | ⟨hrefusal, -⟩)
    · rw [hread]
      exact .inl ⟨.unsuited p _ hadmits, nofun⟩
    · exact .inr ⟨hrefusal, e, rfl⟩
  · rintro u output after - (⟨found, hread, hadmits, hsuits⟩ | ⟨-, e, he⟩)
    · have hreads : ∀ v : Trace S P L C, reads (u ++ v) = (p, found) :: reads v := by
        intro v
        rw [reads_append, hread]
        rfl
      refine .bind_session (hpairs after) ?_ ?_
      · rintro v e (⟨hsettles, -⟩ | ⟨hrefusal, -⟩)
        · rw [hreads]
          exact .inl ⟨.read p hadmits hsuits hsettles, nofun⟩
        · exact .inr ⟨hrefusal.append_right u, e, rfl⟩
      · rintro v outputs later - (⟨hsettles, hnames⟩ | ⟨-, e, he⟩)
        · refine .pure (.inl ⟨?_, fun a ha => ?_⟩)
          · have hvalue : (Except.ok (k output outputs) : Except Error α).map values =
                (Except.ok (outputs.map (·.2))).map (output :: ·) :=
              congrArg Except.ok (hvalues output outputs)
            rw [List.append_nil, hreads, hvalue]
            exact .read p hadmits hsuits hsettles
          · cases ha
            exact ⟨output, outputs, rfl, hnames outputs rfl⟩
        · cases he
    · cases he

/-- **Extracting the outputs**, whatever is bound to them. -/
theorem records_extractAll_settles {pairs : List (Binding × Bind P)}
    (hresolved : ∀ x ∈ pairs, x.1.Resolved) :
    Records (d.recorded.extractAll pairs).run (d.extractAll pairs).run s fun u r =>
      Extracted pairs u r ∨ Refused u r := by
  induction pairs generalizing s with
  | nil => exact .pure (.inl ⟨.nil, fun outputs h => by cases h; rfl⟩)
  | cons pair rest ih =>
    obtain ⟨hb, hrest⟩ := List.forall_mem_cons.mp hresolved
    obtain ⟨b, bind⟩ := pair
    simp only [Driver.extractAll, hb.extract_eq_nothing_iff]
    cases houtput : b.producesOutput with
    | false =>
      have hskip : returning ((b, bind) :: rest) = returning rest :=
        List.filter_cons_of_neg (by simp [houtput])
      rw [if_pos rfl, if_pos rfl]
      refine (ih s hrest).mono fun u r h => h.imp_left fun hextracted => ?_
      exact ⟨hskip ▸ hextracted.settles, hskip ▸ hextracted.names⟩
    | true =>
      have hkeep : returning ((b, bind) :: rest) = (b, bind) :: returning rest :=
        List.filter_cons_of_pos houtput
      have hne : ¬ true = false := by decide
      rw [if_neg hne, if_neg hne]
      cases bind with
      | value v =>
        refine .pure (.inl ⟨?_, fun outputs ho => by cases ho⟩)
        rw [hkeep]
        exact .replaced b v _
      | placeholder p =>
        refine (records_extract_before d s hb houtput p (fun after => ih after hrest)
          (fun output outputs => (b.name, output) :: outputs) _ fun _ _ => rfl).mono
          fun u r h => h.imp_left fun hbefore => ⟨hkeep ▸ hbefore.1, fun outputs ho => ?_⟩
        obtain ⟨output, others, rfl, hothers⟩ := hbefore.2 outputs ho
        rw [hkeep, List.map_cons, List.map_cons, hothers]

/-! ## Call -/

section Call

variable {m : CallModel} (hresolved : ∀ b ∈ m.arguments, b.Resolved)

include hresolved

theorem records_extractAll_zip_settles (left : List (Bind P)) :
    Records (d.recorded.extractAll (m.arguments.zip left)).run
      (d.extractAll (m.arguments.zip left)).run s fun u r =>
        Extracted (m.arguments.zip left) u r ∨ Refused u r :=
  records_extractAll_settles d s fun x hx => hresolved x.1 (List.of_mem_zip hx).1

theorem records_invoke_procedure_concludes (hm : m.returnValue = none) {binds : List (Bind P)}
    (hbinds : binds.length = m.arguments.length) :
    Records (d.recorded.invoke m binds) (d.invoke m binds) s fun u r =>
      Concludes m (leftBinds u) (reads u) r.1 ∨ Refused u r.1 := by
  unfold Driver.invoke
  rw [hm]
  refine (Records.ask d _).bind fun u a after _ h => ?_
  obtain ⟨rfl, -⟩ := h
  cases a with
  | error e => exact .pure (.inr ⟨.single s _ e, e, rfl⟩)
  | ok reply =>
    obtain ⟨left, hlength⟩ := reply
    refine ((records_extractAll_zip_settles d after hresolved left).and
      (records_extractAll_zip d after m.arguments left)).bind fun v outputs later _ hv => .pure ?_
    obtain ⟨hextracted | ⟨hrefusal, e, rfl⟩, -, hphase⟩ := hv
    · have hconcludes := Concludes.procedure hm (hlength.trans hbinds) hextracted
      rw [List.append_nil, List.singleton_append, hphase.leftBinds_cons]
      exact .inl hconcludes
    · exact .inr ⟨(hrefusal.append_left _).append_right _, e, rfl⟩

theorem records_invoke_function_concludes {returned : Binding} (hm : m.returnValue = some returned)
    (hreturned : returned.Resolved) (houtput : returned.producesOutput = true)
    {binds : List (Bind P)} (hbinds : binds.length = m.arguments.length) :
    Records (d.recorded.invoke m binds) (d.invoke m binds) s fun u r =>
      Concludes m (leftBinds u) (reads u) r.1 ∨ Refused u r.1 := by
  unfold Driver.invoke
  rw [hm]
  refine (Records.ask d _).bind fun u a after _ h => ?_
  obtain ⟨rfl, -⟩ := h
  cases a with
  | error e => exact .pure (.inr ⟨.single s _ e, e, rfl⟩)
  | ok p =>
    refine (Records.ask d _).bind fun v a later _ h => ?_
    obtain ⟨rfl, -⟩ := h
    cases a with
    | error e => exact .pure (.inr ⟨.append_right (.single after _ e) _, e, rfl⟩)
    | ok reply =>
      obtain ⟨left, hlength⟩ := reply
      refine ((records_extract_before d later hreturned houtput p
        (fun last => records_extractAll_zip_settles d last hresolved left)
        (fun output outputs => (⟨some output, outputs⟩ : Outcome C)) Outcome.values
        fun _ _ => rfl).and
        (records_extractReturned d later m.arguments left returned p)).bind
        fun w outcome last _ hw => .pure ?_
      obtain ⟨⟨hsettles, hnames⟩ | ⟨hrefusal, e, rfl⟩, -, hphase⟩ := hw
      · have hconcludes := Concludes.function hm houtput (hlength.trans hbinds) hsettles hnames
        rw [List.append_nil, List.singleton_append, List.singleton_append]
        refine .inl ?_
        -- the allocation before the call leaves nothing bound
        have hleft := hphase.leftBinds_cons
          ⟨after, .callFunction m.name p binds, .ok ⟨left, hlength⟩⟩
        exact hleft ▸ hconcludes
      · exact .inr ⟨.append_right (.append_right (.append_left hrefusal _) _) _, e, rfl⟩

end Call

section Execution

variable {types : TypeTable} {declaration : Declaration} {m : CallModel}
  (hmodel : CallModel.ofDeclaration types declaration = .ok m) {inputs : List Value}
  (hinputs : inputs.length = m.inputArity)

include hmodel hinputs

theorem records_call_concludes :
    Records (d.recorded.call m inputs) (d.call m inputs) s fun u r =>
      Concludes m (leftBinds u) (reads u) r.1 ∨ Refused u r.1 := by
  have hresolved := CallModel.arguments_resolved hmodel
  unfold Driver.call
  refine ((records_prepareAll d s m.arguments inputs).and
    (records_prepareAll_exchanges d s hresolved hinputs)).bind fun u r after _ hr => ?_
  obtain ⟨binds, e | _⟩ := r
  · obtain ⟨-, hrefusal⟩ := hr
    exact .pure (.inr ⟨.append_left hrefusal _, e, rfl⟩)
  · obtain ⟨⟨-, -, hphase⟩, parts, harguments, -, -, rfl, -⟩ := hr
    have hbinds : (parts.map Part.bind).length = m.arguments.length := by
      rw [← harguments, List.length_map, List.length_map]
    have hinvoke : Records (d.recorded.invoke m (parts.map Part.bind))
        (d.invoke m (parts.map Part.bind)) after fun u r =>
          Concludes m (leftBinds u) (reads u) r.1 ∨ Refused u r.1 := by
      cases hm : m.returnValue with
      | none => exact records_invoke_procedure_concludes d after hresolved hm hbinds
      | some returned =>
        obtain ⟨hreturned, -⟩ := CallModel.returnValue_resolved hmodel returned hm
        have houtput := CallModel.producesOutput_of_mem_returnValue hmodel returned hm
        exact records_invoke_function_concludes d after hresolved hm hreturned houtput hbinds
    refine hinvoke.mono fun v r hv => ?_
    -- the preparation neither reads nor calls
    rw [leftBinds_append, reads_append, (hphase rfl).leftBinds_eq_nil (by decide),
      (hphase rfl).reads_eq_nil (by decide)]
    exact hv.imp_right fun h => h.append_right u

theorem records_execute_concludes :
    Records (d.recorded.execute m inputs).run (d.execute m inputs).run s fun u r =>
      Concludes m (leftBinds u) (reads u) r ∨ Refused u r := by
  rw [Driver.run_execute _ hinputs, Driver.run_execute _ hinputs]
  refine (records_call_concludes d s hmodel hinputs).bind fun u r after _ hu => ?_
  obtain ⟨outcome, held⟩ := r
  refine ((records_releaseAll d after held).and
    (records_releaseAll_exchanges d after held)).bind fun v released later _ hv => .pure ?_
  obtain ⟨⟨-, hreleases, -⟩, hv⟩ := hv
  have hphase : InPhase .release v := fun e he => of_decide_eq_true (hreleases e he)
  -- neither does the clean-up
  rw [List.append_nil, leftBinds_append, reads_append, hphase.leftBinds_eq_nil (by decide),
    hphase.reads_eq_nil (by decide), List.append_nil, List.append_nil]
  rcases hu with hu | ⟨hrefusal, e, rfl⟩
  · cases outcome with
    | error e => exact .inl hu
    | ok outcome =>
      cases released with
      | error e => exact .inr ⟨.append_right hv u, e, rfl⟩
      | ok _ => exact .inl hu
  · exact .inr ⟨hrefusal.append_left v, e, rfl⟩

/-- If no request is refused, there is nothing else that it can come to. -/
theorem concludes_of_granted (hgranted : ∀ e ∈ d.trace m inputs s, e.isRefused = false) :
    Concludes m (leftBinds (d.trace m inputs s)) (reads (d.trace m inputs s))
      ((d.execute m inputs).run.run s).1 := by
  rcases (records_execute_concludes d s hmodel hinputs).trace with h | ⟨⟨e, he, hrefused⟩, -⟩
  · exact h
  · rw [hgranted e he] at hrefused
    cases hrefused

omit hinputs in
/-- Nor is there if it succeeds. -/
theorem concludes_of_ok {outcome : Outcome C}
    (hok : ((d.execute m inputs).run.run s).1 = .ok outcome) :
    Concludes m (leftBinds (d.trace m inputs s)) (reads (d.trace m inputs s)) (.ok outcome) := by
  by_cases hinputs : inputs.length = m.inputArity
  · rcases (records_execute_concludes d s hmodel hinputs).trace with h | ⟨-, e, herror⟩
    · rwa [hok] at h
    · rw [hok] at herror
      cases herror
  · rw [Driver.run_execute_of_ne _ hinputs] at hok
    cases hok

end Execution

end Executor

/-- **The shape of an outcome.** Let the model be made from a declaration. Then, whatever the driver
does, with a wrong number of inputs nothing is asked of it, and an outcome has the returned value,
the outputs and the rows that the model lays down, each from its own read. With the right number of
inputs and no request refused, the execution fails exactly if a result has lost its placeholder or a
read finds what does not suit its result, and the error is that of the first of these. -/
theorem execute_shape (d : Driver S P L C) (s : S) {types : TypeTable} {declaration : Declaration}
    {m : CallModel} (hmodel : CallModel.ofDeclaration types declaration = .ok m)
    (inputs : List Value) :
    let result := ((d.execute m inputs).run.run s).1
    let t := d.trace m inputs s
    (inputs.length ≠ m.inputArity →
      (d.execute m inputs).run.run s =
        (.error (.ofCause (.arityMismatch m.inputArity inputs.length)), s) ∧ t = []) ∧
    (∀ outcome, result = .ok outcome →
      (outcome.returnValue.isSome = true ↔
        ∃ name arguments returnType, declaration = .function name arguments returnType) ∧
      outcome.outputs.map (·.1) =
        (declaration.arguments.filter (·.direction.producesOutput)).map (·.name) ∧
      outcome.arity = m.resultArity ∧
      outcome.values = outcome.returnValue.toList ++ outcome.outputs.map (·.2) ∧
      List.Forall₂ (fun b output => output.isRows = true ↔ b.family = .cursor) m.results
        outcome.values ∧
      (reads t).map (·.1) = (m.due (leftBinds t)).filterMap (·.2.placeholder?)) ∧
    (inputs.length = m.inputArity → (∀ e ∈ t, e.isRefused = false) →
      let due := m.due (leftBinds t)
      due.map (·.1) = m.results ∧
      (reads t).map (·.1) <+: due.filterMap (·.2.placeholder?) ∧
      ((∃ e, result = .error e) ↔ (∃ x ∈ due, x.2.placeholder? = none) ∨
        ∃ x ∈ m.results.zip ((reads t).map (·.2)), x.1.family.admits x.2 = false) ∧
      ∀ e, result = .error e ↔ firstMismatch? due ((reads t).map (·.2)) = some e) := by
  intro result t
  have hresults : ∀ {left}, left.length = (m.returnValue.toList ++ m.arguments).length →
      (m.due (P := P) left).map (·.1) = m.results :=
    CallModel.map_fst_due (CallModel.producesOutput_of_mem_returnValue hmodel)
  refine ⟨fun hne => ⟨?_, trace_eq_nil_of_ne d hne s⟩, fun outcome hok => ?_,
    fun hinputs hgranted => ?_⟩
  · rw [Driver.run_execute_of_ne _ hne]
    rfl
  · obtain ⟨hlength, hsettles, hfits⟩ := concludes_of_ok d s hmodel hok
    have hfit : outcome.Fits m := hfits outcome rfl
    refine ⟨?_, hfit.names.trans (CallModel.map_name_outputs hmodel), hfit.arity_eq, rfl,
      hresults hlength ▸ hsettles.suits, hsettles.placeholders_eq⟩
    rw [hfit.returnValue]
    exact CallModel.isFunction_iff hmodel
  · obtain ⟨hlength, hsettles, -⟩ := concludes_of_granted d s hmodel hinputs hgranted
    simp only [← map_eq_error_iff Outcome.values]
    refine ⟨hresults hlength, hsettles.placeholders_isPrefix, ?_, hsettles.eq_error_iff⟩
    rw [← hresults hlength]
    exact hsettles.exists_error_iff

/-- A function of which two results cannot be extracted: what is read for the one is a text and no
locator, and for the other there is a plain value in the place of its placeholder. The execution
fails with the first of these. -/
theorem fails_for_first_of_two :
    let types : TypeTable := ⟨"oracle", [("number", ⟨"NUMBER", .scalar⟩),
      ("clob", ⟨"CLOB", .largeObject⟩)], by decide⟩
    let a : Argument := ⟨"a", .inOut, true, "number", none⟩
    let b : Argument := ⟨"b", .out, true, "clob", none⟩
    let c : Argument := ⟨"c", .out, true, "number", none⟩
    let declaration : Declaration := .function "F" [a, b, c] "clob"
    let first : Binding := ⟨a, "NUMBER", .scalar, .forParameter .scalar .inOut⟩
    let second : Binding := ⟨b, "CLOB", .largeObject, .forParameter .largeObject .out⟩
    let third : Binding := ⟨c, "NUMBER", .scalar, .forParameter .scalar .out⟩
    let returned : Binding :=
      ⟨CallModel.returnArgument "clob", "CLOB", .largeObject, .forReturn .largeObject⟩
    let m : CallModel := ⟨"F", [first, second, third], some returned, declaration⟩
    let d := Rehearsal.driver
      ⟨[], [.value .null, .value (.int 3), .value (.text "x")], [(2, .int 7)]⟩
    let t := d.trace m [.int 1] .empty
    CallModel.ofDeclaration types declaration = .ok m ∧ (∀ e ∈ t, e.isRefused = false) ∧
      (d.execute m []).run.run .empty = (.error (.ofCause (.arityMismatch 1 0)), .empty) ∧
      m.due (leftBinds t) = [(returned, .placeholder 3), (first, .placeholder 0),
        (second, .placeholder 1), (third, .value (.int 7))] ∧
      (reads t).map (fun x => (x.1, x.2.kindName)) = [(3, "null"), (0, "int"), (1, "text")] ∧
      ((d.execute m [.int 1]).run.run .empty).1 =
        .error (.ofCause (.protocolMismatch "b" .largeObject "text")) := by
  intro types a b c declaration first second third returned m d t
  have hmodel : CallModel.ofDeclaration types declaration = .ok m := by decide
  have hgranted : ∀ e ∈ t, e.isRefused = false := by decide +kernel
  have hmismatch := (execute_shape d .empty hmodel []).1 (by decide)
  have herror := ((execute_shape d .empty hmodel [.int 1]).2.2 rfl hgranted).2.2.2
    (.ofCause (.protocolMismatch "b" .largeObject "text"))
  exact ⟨hmodel, hgranted, hmismatch.1, by decide +kernel, by decide +kernel,
    herror.mpr (by decide +kernel)⟩

end StoredRoutine
