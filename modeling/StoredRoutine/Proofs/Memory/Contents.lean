import StoredRoutine.Proofs.CallModel
import StoredRoutine.Proofs.Memory.Slots

/-!
# Contents of arguments

What matters of a call in memory is what its arguments hold: the `contents` that the routine is
given, and the `results` of what it leaves in them. Neither mentions a slot.

The phases of an execution are followed over a session that was extended by the slots of the call
so far. Each of them works on contents only: preparation supplies them
(`run_prepareAll_extend`), the binds pass them to the routine (`mapM_content?_extend`), what it
leaves is stored (`run_writeBack_extend`), and extraction makes the results of it
(`run_extractAll_extend`).
-/

namespace StoredRoutine

/-! ## Contents and results -/

/-- What an argument with this input holds when the routine is run. -/
def Binding.content (b : Binding) (input : Value) : Stored :=
  match b.argument.direction, b.family with
  | .into, _ => .value input
  | .out, family => .emptyFor family
  | .inOut, .scalar => .value input
  | .inOut, .largeObject => .lob input
  | .inOut, .cursor => .rows []

/-- What comes back for an argument in which the routine left this. A large object can be replaced
by a plain value, which is then its content. -/
def Binding.result (b : Binding) (left : Stored) : Except Error (Output Memory.Cursor) :=
  match b.family, left with
  | .scalar, .value v => .ok (.value v)
  | .largeObject, .value v | .largeObject, .lob v => .ok (.value v)
  | .cursor, .rows rows => .ok (.rows (.ofCursor ⟨rows⟩))
  | _, _ => .error (.ofCause (.protocolMismatch b.name b.family left.fetched.kindName))

namespace Memory

/-- The arguments with their inputs: each that takes one has the next, any other has none. -/
def supply : List Binding → List Value → List (Binding × Value)
  | [], _ => []
  | b :: bs, inputs =>
    let (input, others) :=
      if b.takesInput then (inputs.head?.getD .null, inputs.tail) else (.null, inputs)
    (b, input) :: supply bs others

/-- What the arguments hold when the routine is run. -/
def contents (bindings : List Binding) (inputs : List Value) : List Stored :=
  (supply bindings inputs).map fun (b, input) => b.content input

/-- What comes back for the arguments in which the routine left these, up to the first that does
not suit its family. -/
def results (bindings : List Binding) (left : List Stored) :
    Except Error (List (String × Output Cursor)) :=
  ((bindings.zip left).filter (·.1.producesOutput)).mapM fun (b, stored) => do
    return (b.name, ← b.result stored)

/-! ## Contents and slots -/

/-- The binds for the arguments, whose slots are numbered from `n` on. -/
def bindsFrom (n : Nat) : List (Binding × Value) → List (Bind Nat)
  | [] => []
  | (b, input) :: rest =>
    if b.producesOutput then .placeholder n :: bindsFrom (n + 1) rest
    else .value input :: bindsFrom n rest

/-- What the slots of the arguments hold. -/
def slotContents : List (Binding × Value) → List Stored
  | [] => []
  | (b, input) :: rest =>
    if b.producesOutput then b.content input :: slotContents rest else slotContents rest

/-- What the slots of the arguments hold after the routine left this in them. -/
def slotContentsAfter : List (Binding × Value) → List Stored → List Stored
  | (b, input) :: rest, stored :: left =>
    if b.producesOutput then (b.content input).store stored :: slotContentsAfter rest left
    else slotContentsAfter rest left
  | _, _ => []

theorem map_fst_supply (bindings : List Binding) (inputs : List Value) :
    (supply bindings inputs).map (·.1) = bindings := by
  induction bindings generalizing inputs with
  | nil => rfl
  | cons b bs ih => rw [supply, List.map_cons, ih]

theorem length_supply (bindings : List Binding) (inputs : List Value) :
    (supply bindings inputs).length = bindings.length := by
  rw [← List.length_map (·.1), map_fst_supply]

theorem length_contents (bindings : List Binding) (inputs : List Value) :
    (contents bindings inputs).length = bindings.length := by
  rw [contents, List.length_map, length_supply]

theorem results_cons (b : Binding) (bs : List Binding) (stored : Stored) (left : List Stored) :
    results (b :: bs) (stored :: left) =
      if b.producesOutput then do
        let output ← b.result stored
        return (b.name, output) :: (← results bs left)
      else results bs left := by
  rw [results, List.zip_cons_cons, List.filter_cons]
  split
  · rw [List.mapM_cons]
    dsimp only
    cases b.result stored <;> rfl
  · rfl

theorem length_slotContents (pairs : List (Binding × Value)) :
    (slotContents pairs).length = ((pairs.map (·.1)).filter (·.producesOutput)).length := by
  induction pairs with
  | nil => rfl
  | cons pair rest ih =>
    obtain ⟨b, input⟩ := pair
    cases h : b.producesOutput <;> simp [slotContents, h, ih]

theorem length_slotContentsAfter {pairs : List (Binding × Value)} {left : List Stored}
    (h : left.length = pairs.length) :
    (slotContentsAfter pairs left).length = (slotContents pairs).length := by
  induction pairs generalizing left with
  | nil => rfl
  | cons pair rest ih =>
    obtain ⟨b, input⟩ := pair
    obtain ⟨stored, left, rfl⟩ := List.exists_cons_of_length_eq_add_one h
    have hrest := ih (Nat.succ_inj.mp h)
    cases hb : b.producesOutput <;> simp [slotContents, slotContentsAfter, hb, hrest]

theorem placeholders_bindsFrom (n : Nat) (pairs : List (Binding × Value)) :
    (bindsFrom n pairs).filterMap (·.placeholder?) = List.range' n (slotContents pairs).length := by
  induction pairs generalizing n with
  | nil => rfl
  | cons pair rest ih =>
    obtain ⟨b, input⟩ := pair
    cases h : b.producesOutput
    · have hnone : (Bind.value input : Bind Nat).placeholder? = none := rfl
      simp [bindsFrom, slotContents, h, List.filterMap_cons_none hnone, ih]
    · simp [bindsFrom, slotContents, h, List.range'_succ, ih]

/-! ## Prepare -/

section Prepare

variable {m : Memory} (hm : WellNumbered m) (cs : List Stored)

include hm

/-- **Preparing an argument.** Only an argument with an output takes a slot, and the slot holds
what the routine is to find there. -/
theorem run_prepare_extend {b : Binding} (hb : b.Resolved) (input : Value) :
    (driver.prepare b input).run.run (m.extend cs) =
      if b.producesOutput then
        (.ok (.placeholder (m.nextSlot + cs.length)), m.extend (cs ++ [b.content input]))
      else (.ok (.value input), m.extend cs) := by
  have hallocate : (driver.ask (.allocate b.token b.family)).run.run (m.extend cs) =
      (.ok (m.nextSlot + cs.length), m.extend (cs ++ [.emptyFor b.family])) :=
    run_allocate_extend cs b.family
  have hempty (h : b.strategy.prepare = .allocate) :
      (driver.prepare b input).run.run (m.extend cs) =
        (.ok (.placeholder (m.nextSlot + cs.length)), m.extend (cs ++ [.emptyFor b.family])) := by
    rw [Driver.prepare, h]
    exact Session.run_bind_of_ok hallocate
  have hseeded (h : b.strategy.prepare = .allocateAndSeed) :
      (driver.prepare b input).run.run (m.extend cs) =
        (.ok (.placeholder (m.nextSlot + cs.length)),
          m.extend (cs ++ [(Stored.emptyFor b.family).store (.value input)])) := by
    have hseed : (driver.ask (.seed (m.nextSlot + cs.length) input)).run.run
        (m.extend (cs ++ [.emptyFor b.family])) =
          (.ok (), m.extend (cs ++ [(Stored.emptyFor b.family).store (.value input)])) :=
      run_store_extend hm cs [] _ _
    rw [Driver.prepare, h]
    refine (Session.run_bind_of_ok hallocate).trans (Session.run_bind_of_ok (a := ()) ?_)
    rw [ExceptT.run_tryCatch, StateT.run_bind, hseed]
    rfl
  obtain ⟨⟨name, direction, explicitDirection, typeName, defaultValue⟩, token, family, strategy⟩ := b
  obtain rfl : strategy = .forParameter family direction := hb
  cases direction with
  | into => rfl
  | out => exact hempty rfl
  | inOut =>
    cases family with
    | scalar => exact hseeded rfl
    | largeObject => exact hseeded rfl
    | cursor => exact hempty rfl

/-- **Preparing the arguments.** -/
theorem run_prepareAll_extend {bindings : List Binding} (h : ∀ b ∈ bindings, b.Resolved)
    (inputs : List Value) :
    (driver.prepareAll bindings inputs).run (m.extend cs) =
      ((bindsFrom (m.nextSlot + cs.length) (supply bindings inputs), .ok ()),
        m.extend (cs ++ slotContents (supply bindings inputs))) := by
  induction bindings generalizing cs inputs with
  | nil =>
    rw [supply, slotContents, List.append_nil]
    rfl
  | cons b bs ih =>
    obtain ⟨hb, hbs⟩ := List.forall_mem_cons.mp h
    simp only [Driver.prepareAll, supply]
    generalize (if b.takesInput then (inputs.head?.getD .null, inputs.tail)
      else (.null, inputs)) = next
    obtain ⟨input, others⟩ := next
    have hprepare := run_prepare_extend hm cs hb input
    rw [bindsFrom, slotContents]
    cases hout : b.producesOutput with
    | false =>
      -- the input is passed on as it is, and no number is used up
      rw [hout, if_neg Bool.false_ne_true] at hprepare
      refine (Session.run_bind_of_eq hprepare).trans ?_
      exact Session.run_bind_of_eq (ih cs hbs others)
    | true =>
      rw [hout, if_pos rfl] at hprepare
      refine (Session.run_bind_of_eq hprepare).trans ?_
      refine (Session.run_bind_of_eq (ih _ hbs others)).trans ?_
      rw [List.length_append, List.append_assoc]
      rfl

end Prepare

/-! ## Call -/

/-- The content that a bind passes. -/
def content? (m : Memory) : Bind Nat → Option Stored
  | .value v => some (.value v)
  | .placeholder slot => m.slots.lookup slot

/-- The body that is run when the request is answered, and the contents it is run on. -/
def runs? (m : Memory) : Request Nat Value → Option (Body × List Stored)
  | .callProcedure name binds =>
    match binds.mapM m.content?, m.routines.lookup (key name) with
    | some arguments, some (.procedure body) => some (body, arguments)
    | _, _ => none
  | .callFunction name _ binds =>
    match binds.mapM m.content?, m.routines.lookup (key name) with
    | some arguments, some (.function body) => some (body, arguments)
    | _, _ => none
  | _ => none

section Run

variable {m : Memory} {binds : List (Bind Nat)} {arguments : List Stored}

theorem run_arguments (h : binds.mapM m.content? = some arguments) :
    (binds.mapM argument).run.run m = (.ok arguments, m) := by
  induction binds generalizing arguments with
  | nil =>
    cases h
    rfl
  | cons bind binds ih =>
    rw [List.mapM_cons] at h
    obtain ⟨content, hcontent, h⟩ := Option.bind_eq_some_iff.mp h
    obtain ⟨contents, hcontents, h⟩ := Option.bind_eq_some_iff.mp h
    cases h
    have hargument : (argument bind).run.run m = (.ok content, m) := by
      cases bind with
      | value v =>
        cases hcontent
        rfl
      | placeholder slot =>
        have hlookup : m.slots.lookup slot = some content := hcontent
        rw [argument, run_fetch, hlookup]
    rw [List.mapM_cons, Session.run_bind_of_ok hargument, Session.run_bind_of_ok (ih hcontents)]
    rfl

/-- **A procedure is run once**, and an error of the body changes nothing. -/
theorem run_callProcedure {name : String} {body : Body}
    (h : m.runs? (.callProcedure name binds) = some (body, arguments)) :
    (callProcedure name binds).run.run m =
      match body arguments with
      | .error e => (.error e, m)
      | .ok (left, _) => (writeBack binds left.val).run.run { m with calls := m.calls ++ [name] } := by
  rw [runs?] at h
  split at h
  · next contents body' hcontents hroutine =>
    cases h
    rw [callProcedure, Session.run_bind_of_ok (run_arguments hcontents),
      Session.run_bind_of_ok (by rw [run_routine, hroutine])]
    cases hbody : body arguments with
    | error e => exact Session.run_bind_of_error (congrArg (·, m) hbody)
    | ok after =>
      obtain ⟨left, result⟩ := after
      exact Session.run_bind_of_ok (congrArg (·, m) hbody)
  · cases h

/-- **A function is run once.** Its result is stored before its arguments are. -/
theorem run_callFunction {name : String} {returns : Nat} {body : Body}
    (h : m.runs? (.callFunction name returns binds) = some (body, arguments)) :
    (callFunction name returns binds).run.run m =
      match body arguments with
      | .error e => (.error e, m)
      | .ok (left, result) =>
        (do store returns result
            writeBack binds left.val : Session Memory Unit).run.run
          { m with calls := m.calls ++ [name] } := by
  rw [runs?] at h
  split at h
  · next contents body' hcontents hroutine =>
    cases h
    rw [callFunction, Session.run_bind_of_ok (run_arguments hcontents),
      Session.run_bind_of_ok (by rw [run_routine, hroutine])]
    cases hbody : body arguments with
    | error e => exact Session.run_bind_of_error (congrArg (·, m) hbody)
    | ok after =>
      obtain ⟨left, result⟩ := after
      exact Session.run_bind_of_ok (congrArg (·, m) hbody)
  · cases h

end Run

/-- An argument without an output is its input. -/
theorem content_of_not_producesOutput {b : Binding} (h : b.producesOutput = false)
    (input : Value) : b.content input = .value input := by
  obtain ⟨⟨name, direction, explicitDirection, typeName, defaultValue⟩, token, family, strategy⟩ := b
  cases direction with
  | into => rfl
  | out => cases h
  | inOut => cases h

section Extend

variable {m : Memory} (hm : WellNumbered m) (pairs : List (Binding × Value))
  (cs ds : List Stored)

include hm

/-- The binds pass what the arguments are to hold. -/
theorem mapM_content?_extend :
    (bindsFrom (m.nextSlot + cs.length) pairs).mapM (m.extend (cs ++ slotContents pairs ++ ds)).content? =
      some (pairs.map fun (b, input) => b.content input) := by
  induction pairs generalizing cs with
  | nil => rfl
  | cons pair rest ih =>
    obtain ⟨b, input⟩ := pair
    rw [bindsFrom, slotContents, List.map_cons]
    cases hout : b.producesOutput with
    | false =>
      rw [if_neg Bool.false_ne_true, if_neg Bool.false_ne_true, List.mapM_cons, ih cs]
      dsimp only
      rw [content_of_not_producesOutput hout]
      rfl
    | true =>
      have hcontent : (m.extend (cs ++ b.content input :: (slotContents rest ++ ds))).content?
          (.placeholder (m.nextSlot + cs.length)) = some (b.content input) :=
        lookup_extend hm cs (b.content input) (slotContents rest ++ ds)
      have hrest := ih (cs ++ [b.content input])
      rw [List.length_append, List.append_assoc, List.append_assoc] at hrest
      rw [if_pos rfl, if_pos rfl, List.mapM_cons, List.append_assoc]
      refine Option.bind_eq_some_iff.mpr ⟨_, hcontent, ?_⟩
      exact Option.bind_eq_some_iff.mpr ⟨_, hrest, rfl⟩

/-- What the routine leaves in the arguments is stored in their slots. -/
theorem run_writeBack_extend {left : List Stored} (h : left.length = pairs.length) :
    (writeBack (bindsFrom (m.nextSlot + cs.length) pairs) left).run.run
        (m.extend (cs ++ slotContents pairs ++ ds)) =
      (.ok (), m.extend (cs ++ slotContentsAfter pairs left ++ ds)) := by
  induction pairs generalizing cs left with
  | nil => rfl
  | cons pair rest ih =>
    obtain ⟨b, input⟩ := pair
    obtain ⟨stored, left, rfl⟩ := List.exists_cons_of_length_eq_add_one h
    rw [bindsFrom, slotContents, slotContentsAfter]
    cases hout : b.producesOutput with
    -- there is no slot to store it in
    | false => exact ih cs (Nat.succ_inj.mp h)
    | true =>
      have hstore := run_store_extend hm cs (slotContents rest ++ ds) (b.content input) stored
      have hrest := ih (cs ++ [(b.content input).store stored]) (Nat.succ_inj.mp h)
      rw [List.length_append, List.append_assoc, List.append_assoc, List.append_assoc,
        List.append_assoc] at hrest
      rw [if_pos rfl, if_pos rfl, if_pos rfl, List.append_assoc, List.append_assoc]
      exact (Session.run_bind_of_ok hstore).trans hrest

end Extend

/-! ## Extract -/

section Extract

variable {m : Memory} (hm : WellNumbered m) (cs ds : List Stored)

include hm

/-- **Extracting an output.** What comes back is what the routine left, whatever the slot held
before. -/
theorem run_extract_extend {b : Binding} (hb : b.Resolved) (hout : b.producesOutput = true)
    (input : Value) (left : Stored) :
    let state := m.extend (cs ++ (b.content input).store left :: ds)
    (driver.extract b (m.nextSlot + cs.length)).run.run state = (b.result left, state) := by
  intro state
  have hread : (driver.ask (.read (m.nextSlot + cs.length))).run.run state =
      (.ok ((b.content input).store left).fetched, state) := by
    refine (run_read _ _).trans ?_
    rw [lookup_extend hm]
  refine (Session.run_bind_of_ok hread).trans ?_
  obtain ⟨⟨name, direction, explicitDirection, typeName, defaultValue⟩, token, family, strategy⟩ := b
  obtain rfl : strategy = .forParameter family direction := hb
  cases direction with
  | into => cases hout
  | out => cases family <;> cases left <;> rfl
  | inOut => cases family <;> cases left <;> rfl

/-- The value of a function comes back like any other output. -/
theorem run_extract_value {b : Binding} (hb : b.Resolved) (hdirection : b.argument.direction = .out)
    (left : Stored) :
    let state := m.extend (cs ++ (Stored.emptyFor b.family).store left :: ds)
    (driver.extract b (m.nextSlot + cs.length)).run.run state = (b.result left, state) := by
  have hcontent : b.content .null = .emptyFor b.family := by
    rw [Binding.content, hdirection]
  have hout : b.producesOutput = true := by
    rw [Binding.producesOutput, hdirection]
    rfl
  rw [← hcontent]
  exact run_extract_extend hm cs ds hb hout .null left

/-- **Extracting the outputs.** -/
theorem run_extractAll_extend {pairs : List (Binding × Value)}
    (h : ∀ b ∈ pairs.map (·.1), b.Resolved) {left : List Stored} (hleft : left.length = pairs.length) :
    let state := m.extend (cs ++ slotContentsAfter pairs left ++ ds)
    (driver.extractAll ((pairs.map (·.1)).zip (bindsFrom (m.nextSlot + cs.length) pairs))).run.run
      state = (results (pairs.map (·.1)) left, state) := by
  induction pairs generalizing cs left with
  | nil => rfl
  | cons pair rest ih =>
    obtain ⟨b, input⟩ := pair
    obtain ⟨hb, hrest⟩ := List.forall_mem_cons.mp h
    obtain ⟨stored, left, rfl⟩ := List.exists_cons_of_length_eq_add_one hleft
    have hlength := Nat.succ_inj.mp hleft
    intro state
    simp only [bindsFrom, List.map_cons, results_cons]
    cases hout : b.producesOutput with
    | false =>
      have hstate : state = m.extend (cs ++ slotContentsAfter rest left ++ ds) := by
        simp only [state, slotContentsAfter, hout, Bool.false_eq_true, if_false]
      rw [if_neg Bool.false_ne_true, if_neg Bool.false_ne_true, List.zip_cons_cons,
        Driver.extractAll.eq_def]
      dsimp only
      rw [if_pos (hb.extract_eq_nothing_iff.mpr hout), hstate]
      exact ih cs hrest hlength
    | true =>
      have hstate : state = m.extend
          (cs ++ (b.content input).store stored :: (slotContentsAfter rest left ++ ds)) := by
        simp [state, slotContentsAfter, hout]
      have hextract := run_extract_extend hm cs (slotContentsAfter rest left ++ ds) hb hout input stored
      have hothers := ih (cs ++ [(b.content input).store stored]) hrest hlength
      -- an argument with an output is not passed over
      have hne : b.strategy.extract ≠ .nothing := by
        intro heq
        rw [hb.extract_eq_nothing_iff, hout] at heq
        cases heq
      rw [if_pos rfl, if_pos rfl, List.zip_cons_cons, Driver.extractAll.eq_def]
      dsimp only
      rw [if_neg hne, hstate]
      rw [List.length_append, List.append_assoc, List.append_assoc] at hothers
      exact Session.run_both hextract hothers

end Extract

end Memory

end StoredRoutine
