import StoredRoutine.Proofs.Memory.Contents
import StoredRoutine.Proofs.Session.Discipline

/-!
# A call is an application

On a session in memory a routine is a function of the contents of its arguments, and a call of it
should be nothing but an application of that function. `apply` says what the application is: the
body is given the contents of the arguments, and the outcome is made of what it leaves in them.

A real call allocates, seeds, reads and releases slots. `run_execute_eq_apply` says that all this
comes to `apply`, that a routine is run once on the way, and that the session is left without a
trace of the slots.
-/

namespace StoredRoutine.Memory

/-! ## Application -/

/-- The call of a routine with this body as an application of it. -/
def apply (m : CallModel) (body : Body) (inputs : List Value) :
    Except Error (Outcome Cursor) := do
  let (left, result) ← body (contents m.arguments inputs)
  let returned ← m.returnValue.mapM (·.result result)
  return ⟨returned, ← results m.arguments left.val⟩

section Apply

variable {m : CallModel} {body : Body} {inputs : List Value}
  {left : { left : List Stored // left.length = (contents m.arguments inputs).length }}
  {result : Stored}

theorem apply_of_procedure (h : body (contents m.arguments inputs) = .ok (left, result))
    (hm : m.returnValue = none) :
    apply m body inputs = do return ⟨none, ← results m.arguments left.val⟩ := by
  rw [apply, h, hm]
  rfl

theorem apply_of_function (h : body (contents m.arguments inputs) = .ok (left, result))
    {returned : Binding} (hm : m.returnValue = some returned) :
    apply m body inputs = do
      let value ← returned.result result
      return ⟨some value, ← results m.arguments left.val⟩ := by
  have hvalue : apply m body inputs = do
      let value ← some <$> returned.result result
      return ⟨value, ← results m.arguments left.val⟩ := by
    rw [apply, h, hm]
    rfl
  rw [hvalue]
  cases returned.result result <;> rfl

end Apply

/-- The routine with this body that the model can be called with. -/
def routineFor (m : CallModel) (body : Body) : Routine :=
  if m.isFunction then .function body else .procedure body

/-- The number of slots that a call takes. -/
def slotCount (m : CallModel) : Nat := m.outputs.length + m.returnValue.toList.length

/-- The names of the routines that were called, after the call. A routine that fails does not
count. -/
def callsAfter (s : Memory) (m : CallModel) (body : Body) (inputs : List Value) : List String :=
  match body (contents m.arguments inputs) with
  | .error _ => s.calls
  | .ok _ => s.calls ++ [m.name]

/-- The session after the call: the slots are what they were, and numbers have been used up. -/
def afterCall (s : Memory) (m : CallModel) (body : Body) (inputs : List Value) : Memory :=
  { s with nextSlot := s.nextSlot + slotCount m, calls := callsAfter s m body inputs }

/-! ## The whole call -/

theorem run_ask_callProcedure {m after : Memory} {name : String} {binds : List (Bind Nat)}
    {result : Except Error Unit} (h : (callProcedure name binds).run.run m = (result, after)) :
    (driver.ask (.callProcedure name binds)).run.run m =
      (result.map fun _ => ⟨binds, rfl⟩, after) := by
  have hrun : (driver.ask (.callProcedure name binds)).run.run m =
      ((callProcedure name binds >>= fun _ => pure ⟨binds, rfl⟩ : Session Memory _)).run.run m := rfl
  rw [hrun]
  cases result with
  | error e => exact Session.run_bind_of_error h
  | ok _ => exact Session.run_bind_of_ok h

theorem run_ask_callFunction {m after : Memory} {name : String} {returns : Nat}
    {binds : List (Bind Nat)} {result : Except Error Unit}
    (h : (callFunction name returns binds).run.run m = (result, after)) :
    (driver.ask (.callFunction name returns binds)).run.run m =
      (result.map fun _ => ⟨binds, rfl⟩, after) := by
  have hrun : (driver.ask (.callFunction name returns binds)).run.run m =
      ((callFunction name returns binds >>= fun _ => pure ⟨binds, rfl⟩ : Session Memory _)).run.run
        m := rfl
  rw [hrun]
  cases result with
  | error e => exact Session.run_bind_of_error h
  | ok _ => exact Session.run_bind_of_ok h

section Call

variable {s : Memory} (hs : WellNumbered s) {m : CallModel} {body : Body} (inputs : List Value)

include hs

/-- The routine of a model is run on the contents. -/
theorem runs?_callProcedure (ds : List Stored)
    (hroutine : s.routines.lookup (key m.name) = some (.procedure body)) :
    let pairs := supply m.arguments inputs
    (s.extend (slotContents pairs ++ ds)).runs? (.callProcedure m.name (bindsFrom s.nextSlot pairs)) =
      some (body, contents m.arguments inputs) := by
  intro pairs
  have hcontents := mapM_content?_extend hs pairs [] ds
  rw [List.length_nil, Nat.add_zero, List.nil_append] at hcontents
  have hlookup : (s.extend (slotContents pairs ++ ds)).routines.lookup (key m.name) =
      some (.procedure body) := hroutine
  rw [runs?, hcontents, hlookup]
  rfl

theorem runs?_callFunction (ds : List Stored) (returns : Nat)
    (hroutine : s.routines.lookup (key m.name) = some (.function body)) :
    let pairs := supply m.arguments inputs
    (s.extend (slotContents pairs ++ ds)).runs?
        (.callFunction m.name returns (bindsFrom s.nextSlot pairs)) =
      some (body, contents m.arguments inputs) := by
  intro pairs
  have hcontents := mapM_content?_extend hs pairs [] ds
  rw [List.length_nil, Nat.add_zero, List.nil_append] at hcontents
  have hlookup : (s.extend (slotContents pairs ++ ds)).routines.lookup (key m.name) =
      some (.function body) := hroutine
  rw [runs?, hcontents, hlookup]
  rfl

variable (h : ∀ b ∈ m.arguments, b.Resolved)

include h

/-- **Invoking a procedure.** -/
theorem run_invoke_procedure (hm : m.returnValue = none)
    (hroutine : s.routines.lookup (key m.name) = some (.procedure body)) :
    let pairs := supply m.arguments inputs
    ∃ slots : List Stored, slots.length = slotCount m ∧
      (driver.invoke m (bindsFrom s.nextSlot pairs)).run (s.extend (slotContents pairs)) =
        ((apply m body inputs, List.range' s.nextSlot (slotContents pairs).length),
          { s with calls := callsAfter s m body inputs }.extend slots) := by
  intro pairs
  have hruns : (s.extend (slotContents pairs)).runs?
      (.callProcedure m.name (bindsFrom s.nextSlot pairs)) =
        some (body, contents m.arguments inputs) := by
    rw [← List.append_nil (slotContents pairs)]
    exact runs?_callProcedure hs inputs [] hroutine
  have hcall := run_callProcedure hruns
  have hfst : pairs.map (·.1) = m.arguments := map_fst_supply m.arguments inputs
  have hlength : (slotContents pairs).length = slotCount m := by
    rw [length_slotContents, hfst, slotCount, hm]
    rfl
  rw [Driver.invoke, hm, callsAfter]
  dsimp only
  cases hbody : body (contents m.arguments inputs) with
  | error e =>
    rw [hbody] at hcall
    refine ⟨slotContents pairs, hlength, ?_⟩
    rw [apply, hbody]
    refine (Session.run_bind_of_eq (run_ask_callProcedure hcall)).trans ?_
    rw [← placeholders_bindsFrom]
    rfl
  | ok after =>
    obtain ⟨⟨left, hleft⟩, result⟩ := after
    have hpairs : left.length = pairs.length := by
      rw [hleft, length_contents, length_supply]
    have hafter : WellNumbered { s with calls := s.calls ++ [m.name] } := hs
    have hwrite := run_writeBack_extend hafter pairs [] [] hpairs
    have hextract := run_extractAll_extend hafter [] [] (hfst ▸ h) hpairs
    simp only [List.nil_append, List.append_nil, List.length_nil, Nat.add_zero, hfst] at hwrite hextract
    rw [hbody] at hcall
    refine ⟨slotContentsAfter pairs left, (length_slotContentsAfter hpairs).trans hlength, ?_⟩
    refine (Session.run_bind_of_eq (run_ask_callProcedure (hcall.trans hwrite))).trans ?_
    refine (Session.run_bind_of_eq hextract).trans ?_
    rw [← placeholders_bindsFrom, apply_of_procedure hbody hm]
    cases results m.arguments left <;> rfl

/-- **Invoking a function.** Its result has the last of the slots. -/
theorem run_invoke_function {returned : Binding} (hm : m.returnValue = some returned)
    (hreturned : returned.Resolved) (hdirection : returned.argument.direction = .out)
    (hroutine : s.routines.lookup (key m.name) = some (.function body)) :
    let pairs := supply m.arguments inputs
    let k := (slotContents pairs).length
    ∃ slots : List Stored, slots.length = slotCount m ∧
      (driver.invoke m (bindsFrom s.nextSlot pairs)).run (s.extend (slotContents pairs)) =
        ((apply m body inputs, (s.nextSlot + k) :: List.range' s.nextSlot k),
          { s with calls := callsAfter s m body inputs }.extend slots) := by
  intro pairs k
  let empty : Stored := .emptyFor returned.family
  have hallocate : (driver.ask (.allocate returned.token returned.family)).run.run
      (s.extend (slotContents pairs)) =
        (.ok (s.nextSlot + k), s.extend (slotContents pairs ++ [empty])) :=
    run_allocate_extend (slotContents pairs) returned.family
  have hcall := run_callFunction (runs?_callFunction hs inputs [empty] (s.nextSlot + k) hroutine)
  have hfst : pairs.map (·.1) = m.arguments := map_fst_supply m.arguments inputs
  have hlength : k + 1 = slotCount m := by
    rw [slotCount, hm, CallModel.outputs, ← hfst, ← length_slotContents]
    rfl
  rw [Driver.invoke, hm, callsAfter]
  dsimp only
  cases hbody : body (contents m.arguments inputs) with
  | error e =>
    rw [hbody] at hcall
    -- an error of the body leaves the slots as they were prepared
    refine ⟨slotContents pairs ++ [empty], by rw [List.length_append, ← hlength]; rfl, ?_⟩
    rw [apply, hbody]
    refine (Session.run_bind_of_eq hallocate).trans ?_
    refine (Session.run_bind_of_eq (run_ask_callFunction hcall)).trans ?_
    rw [← placeholders_bindsFrom]
    rfl
  | ok after =>
    obtain ⟨⟨left, hleft⟩, result⟩ := after
    have hpairs : left.length = pairs.length := by
      rw [hleft, length_contents, length_supply]
    have hk : (slotContentsAfter pairs left).length = k := length_slotContentsAfter hpairs
    have hcalled : WellNumbered { s with calls := s.calls ++ [m.name] } := hs
    -- the slot of the result comes behind those of the arguments
    have hstore := run_store_extend hcalled (slotContents pairs) [] empty result
    have hwrite := run_writeBack_extend hcalled pairs [] [empty.store result] hpairs
    have hvalue :=
      run_extract_value hcalled (slotContentsAfter pairs left) [] hreturned hdirection result
    have hextract := run_extractAll_extend hcalled [] [empty.store result] (hfst ▸ h) hpairs
    simp only [List.nil_append, List.length_nil, Nat.add_zero, hfst, hk] at hwrite hvalue hextract
    rw [hbody] at hcall
    refine ⟨slotContentsAfter pairs left ++ [empty.store result], ?_, ?_⟩
    · rw [List.length_append, hk, ← hlength]
      rfl
    · have hcall' := hcall.trans ((Session.run_bind_of_ok hstore).trans hwrite)
      rw [← placeholders_bindsFrom, apply_of_function hbody hm]
      refine (Session.run_bind_of_eq hallocate).trans ?_
      refine (Session.run_bind_of_eq (run_ask_callFunction hcall')).trans ?_
      exact Session.run_bind_of_eq (Session.run_both hvalue hextract)

/-- **Calling a routine** uses up slots, each of which is handed over to be released. -/
theorem run_call (hreturned : ∀ b ∈ m.returnValue, b.Resolved ∧ b.argument.direction = .out)
    (hroutine : s.routines.lookup (key m.name) = some (routineFor m body)) :
    ∃ (held : List Nat) (slots : List Stored), slots.length = slotCount m ∧
      held.Perm (List.range' s.nextSlot slots.length) ∧
      (driver.call m inputs).run s =
        ((apply m body inputs, held),
          { s with calls := callsAfter s m body inputs }.extend slots) := by
  have hprepare := run_prepareAll_extend hs [] h inputs
  rw [extend_nil, List.length_nil, Nat.add_zero, List.nil_append] at hprepare
  have hcall : (driver.call m inputs).run s =
      (driver.invoke m (bindsFrom s.nextSlot (supply m.arguments inputs))).run
        (s.extend (slotContents (supply m.arguments inputs))) := Session.run_bind_of_eq hprepare
  have hlength : (slotContents (supply m.arguments inputs)).length = m.outputs.length := by
    rw [length_slotContents, map_fst_supply]
    rfl
  cases hm : m.returnValue with
  | none =>
    rw [routineFor, CallModel.isFunction, hm] at hroutine
    obtain ⟨slots, hslots, hinvoke⟩ := run_invoke_procedure hs inputs h hm hroutine
    have hcount : slots.length = (slotContents (supply m.arguments inputs)).length := by
      rw [hslots, hlength, slotCount, hm]
      rfl
    exact ⟨_, slots, hslots, hcount ▸ .refl _, hcall.trans hinvoke⟩
  | some returned =>
    rw [routineFor, CallModel.isFunction, hm] at hroutine
    obtain ⟨hresolved, hdirection⟩ := hreturned returned hm
    obtain ⟨slots, hslots, hinvoke⟩ :=
      run_invoke_function hs inputs h hm hresolved hdirection hroutine
    have hcount : slots.length = (slotContents (supply m.arguments inputs)).length + 1 := by
      rw [hslots, hlength, slotCount, hm]
      rfl
    -- the number of the result's slot is the last, but it is released first
    refine ⟨_, slots, hslots, ?_, hcall.trans hinvoke⟩
    rw [hcount, List.range'_concat, Nat.one_mul]
    exact (List.perm_append_singleton _ _).symm

end Call

/-! ## Runs of the body -/

/-- The runs of routines in the course of a session: what is run, and the contents it is given. -/
def runs (t : Trace Memory Nat Value Cursor) : List (Body × List Stored) :=
  t.filterMap fun e => e.before.runs? e.request

theorem runs_append (t u : Trace Memory Nat Value Cursor) : runs (t ++ u) = runs t ++ runs u :=
  List.filterMap_append

/-- Only calls run something. -/
theorem runs_eq_nil {t : Trace Memory Nat Value Cursor} (h : ∀ e ∈ t, e.request.phase ≠ .invoke) :
    runs t = [] := by
  refine List.filterMap_eq_nil_iff.mpr fun e he => ?_
  obtain ⟨before, request, answer⟩ := e
  have hphase := h _ he
  cases request <;> first | rfl | exact absurd rfl hphase

theorem runs_eq_nil_of_inPhase {phase : Phase} {t : Trace Memory Nat Value Cursor}
    (h : InPhase phase t) (hphase : phase ≠ .invoke) : runs t = [] :=
  runs_eq_nil fun e he heq => hphase ((h e he).symm.trans heq)

section Runs

variable (m : CallModel) (s : Memory) (binds : List (Bind Nat))

theorem records_invoke_procedure (hm : m.returnValue = none) :
    Records (driver.recorded.invoke m binds) (driver.invoke m binds) s fun u _ =>
      runs u = (s.runs? (.callProcedure m.name binds)).toList := by
  have hcall : ∀ answer, runs [⟨s, .callProcedure m.name binds, answer⟩] =
      (s.runs? (.callProcedure m.name binds)).toList := by
    intro answer
    rw [runs, List.filterMap_cons]
    cases h : s.runs? (.callProcedure m.name binds) <;> rfl
  unfold Driver.invoke
  rw [hm]
  refine (Records.ask driver _).bind fun u a after _ h => ?_
  obtain ⟨rfl, -⟩ := h
  cases a with
  | error e => exact .pure (hcall _)
  | ok reply =>
    obtain ⟨left, hlength⟩ := reply
    refine (records_extractAll_zip driver after m.arguments left).bind fun v outputs later _ h => ?_
    refine .pure ?_
    rw [List.append_nil, runs_append, hcall, runs_eq_nil_of_inPhase h.2 (by decide), List.append_nil]

theorem records_invoke_function {returned : Binding} (hm : m.returnValue = some returned)
    {p : Nat} {after : Memory}
    (hallocate : driver.answer (.allocate returned.token returned.family) s = (.ok p, after)) :
    Records (driver.recorded.invoke m binds) (driver.invoke m binds) s fun u _ =>
      runs u = (after.runs? (.callFunction m.name p binds)).toList := by
  have hcall : ∀ answer, runs [⟨after, .callFunction m.name p binds, answer⟩] =
      (after.runs? (.callFunction m.name p binds)).toList := by
    intro answer
    rw [runs, List.filterMap_cons]
    cases h : after.runs? (.callFunction m.name p binds) <;> rfl
  unfold Driver.invoke
  rw [hm]
  refine (Records.ask driver _).bind fun u a after' hrun h => ?_
  obtain ⟨rfl, -⟩ := h
  obtain ⟨rfl, rfl⟩ : a = .ok p ∧ after' = after := Prod.mk.inj (hrun.symm.trans hallocate)
  have hnone : runs [⟨s, .allocate returned.token returned.family, .ok p⟩] = [] := rfl
  refine (Records.ask driver _).bind fun v a later _ h => ?_
  obtain ⟨rfl, -⟩ := h
  cases a with
  | error e =>
    refine .pure ?_
    rw [List.append_nil, runs_append, hnone, hcall, List.nil_append]
  | ok reply =>
    obtain ⟨left, hlength⟩ := reply
    refine (records_extractReturned driver later m.arguments left returned p).bind
      fun w outcome last _ h => .pure ?_
    rw [List.append_nil, runs_append, runs_append, hnone, hcall,
      runs_eq_nil_of_inPhase h.2 (by decide), List.append_nil, List.nil_append]

end Runs

/-- **One run.** However the call ends, the routine is run once, on the contents. -/
theorem records_execute_runs {m : CallModel} (h : ∀ b ∈ m.arguments, b.Resolved) {s : Memory}
    (hs : WellNumbered s) {body : Body}
    (hroutine : s.routines.lookup (key m.name) = some (routineFor m body)) {inputs : List Value}
    (hinputs : inputs.length = m.inputArity) :
    Records (driver.recorded.execute m inputs).run (driver.execute m inputs).run s fun u _ =>
      runs u = [(body, contents m.arguments inputs)] := by
  have hprepare := run_prepareAll_extend hs [] h inputs
  rw [extend_nil, List.length_nil, Nat.add_zero, List.nil_append] at hprepare
  have hcall : Records (driver.recorded.call m inputs) (driver.call m inputs) s fun u _ =>
      runs u = [(body, contents m.arguments inputs)] := by
    refine (records_prepareAll driver s m.arguments inputs).bind fun u r after hrun hu => ?_
    obtain ⟨rfl, rfl⟩ := Prod.mk.inj (hrun.symm.trans hprepare)
    have hnone : runs u = [] := runs_eq_nil_of_inPhase (hu.2.2 rfl) (by decide)
    cases hm : m.returnValue with
    | none =>
      rw [routineFor, CallModel.isFunction, hm] at hroutine
      refine (records_invoke_procedure m _ _ hm).mono fun v r hv => ?_
      have hruns := runs?_callProcedure hs inputs [] hroutine
      simp only [List.append_nil] at hruns
      rw [runs_append, hnone, hv, hruns]
      rfl
    | some returned =>
      rw [routineFor, CallModel.isFunction, hm] at hroutine
      refine (records_invoke_function m _ _ hm (run_allocate_extend _ _)).mono fun v r hv => ?_
      rw [runs_append, hnone, hv, runs?_callFunction hs inputs _ _ hroutine]
      rfl
  rw [Driver.run_execute _ hinputs, Driver.run_execute _ hinputs]
  refine hcall.bind fun u r after _ hu => ?_
  refine (records_releaseAll driver after r.2).bind fun v released later _ hv => .pure ?_
  -- nothing is run in order to clean up
  have hnone : runs v = [] := runs_eq_nil fun e he heq => by
    have hrelease := hv.2.1 e he
    simp [Request.isRelease, heq] at hrelease
  rw [List.append_nil, runs_append, hu, hnone, List.append_nil]

/-! ## Main statement -/

/-- **A call is an application.** In every state that a session can come to, the call of a routine
runs it once, on the contents of the arguments. The outcome is that of `apply`, and nothing is
left behind but used numbers and, if the routine succeeded, its name. -/
theorem run_execute_eq_apply {types : TypeTable} {declaration : Declaration} {m : CallModel}
    (hmodel : CallModel.ofDeclaration types declaration = .ok m) {s : Memory} (hs : Reachable s)
    {body : Body} (hroutine : s.routines.lookup (key m.name) = some (routineFor m body))
    {inputs : List Value} (hinputs : inputs.length = m.inputArity) :
    runs (driver.trace m inputs s) = [(body, contents m.arguments inputs)] ∧
      (driver.execute m inputs).run.run s = (apply m body inputs, afterCall s m body inputs) := by
  have hnumbers := hs.wellNumbered
  have harguments := CallModel.arguments_resolved hmodel
  refine ⟨(records_execute_runs harguments hnumbers hroutine hinputs).trace, ?_⟩
  obtain ⟨held, slots, hslots, hheld, hcall⟩ :=
    run_call hnumbers inputs harguments (CallModel.returnValue_resolved hmodel) hroutine
  have hcalled : WellNumbered { s with calls := callsAfter s m body inputs } := hnumbers
  have hrelease := run_releaseAll_extend hcalled slots hheld
  rw [Driver.run_execute _ hinputs]
  refine (Session.run_bind_of_eq hcall).trans ((Session.run_bind_of_eq hrelease).trans ?_)
  rw [afterCall, ← hslots]
  cases apply m body inputs <;> rfl

/-- A function that leaves its arguments alone, with an argument of each family. The cursor does
not get its input. -/
theorem run_execute_eq_apply_of_identity :
    let types : TypeTable := ⟨"oracle", [("number", ⟨"NUMBER", .scalar⟩),
      ("clob", ⟨"CLOB", .largeObject⟩), ("sys_refcursor", ⟨"CURSOR", .cursor⟩)], by decide⟩
    let a : Argument := ⟨"a", .into, false, "number", none⟩
    let b : Argument := ⟨"b", .inOut, true, "clob", none⟩
    let c : Argument := ⟨"c", .inOut, true, "sys_refcursor", none⟩
    let declaration : Declaration := .function "F" [a, b, c] "number"
    let m : CallModel := ⟨"F", [⟨a, "NUMBER", .scalar, .forParameter .scalar .into⟩,
      ⟨b, "CLOB", .largeObject, .forParameter .largeObject .inOut⟩,
      ⟨c, "CURSOR", .cursor, .forParameter .cursor .inOut⟩],
      some ⟨CallModel.returnArgument "number", "NUMBER", .scalar, .forParameter .scalar .out⟩,
      declaration⟩
    let body : Body := fun arguments => .ok (⟨arguments, rfl⟩, .value (.int 7))
    let s := empty.register "F" (.function body)
    let inputs : List Value := [.int 1, .text "x", .int 2]
    CallModel.ofDeclaration types declaration = .ok m ∧ Reachable s ∧
      s.routines.lookup (key m.name) = some (routineFor m body) ∧ inputs.length = m.inputArity ∧
      runs (driver.trace m inputs s) = [(body, [.value (.int 1), .lob (.text "x"), .rows []])] ∧
      (driver.execute m inputs).run.run s =
        (.ok ⟨some (.value (.int 7)), [("b", .value (.text "x")), ("c", .rows (.ofCursor ⟨[]⟩))]⟩,
          { s with nextSlot := 3, calls := ["F"] }) := by
  intro types a b c declaration m body s inputs
  have hmodel : CallModel.ofDeclaration types declaration = .ok m := by decide
  have hs : Reachable s := .register _ _ .empty
  have hroutine : s.routines.lookup (key m.name) = some (routineFor m body) :=
    List.lookup_cons_self
  have hinputs : inputs.length = m.inputArity := rfl
  obtain ⟨hruns, hrun⟩ := run_execute_eq_apply hmodel hs hroutine hinputs
  exact ⟨hmodel, hs, hroutine, hinputs, hruns, hrun⟩

end StoredRoutine.Memory
