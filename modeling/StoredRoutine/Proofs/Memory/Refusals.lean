import StoredRoutine.Proofs.Memory.Effects

/-!
# Requests that are refused

A request that is refused should leave a session in memory as it was. A call can be refused for a
slot that it passes, for the name or the kind of its routine, and by the body of the routine, and
all this comes to light before the name is noted. What is left to do from then on is to store what
the routine made, which cannot fail for the slots that were passed (`run_writeBack_of_mem`).

The slot for the result of a function is another matter. Nothing looks at it until the result is
stored, and by then the name has been noted. `LosesResult` says of a request that this happens to
it, and `refused_eq_noted` that nothing else is ever left of a request that is refused.
-/

namespace StoredRoutine.Memory

variable {m : Memory} {r : Request Nat Value}

/-- The request calls a function that succeeds, and there is no slot for its result. -/
def LosesResult (m : Memory) (r : Request Nat Value) : Prop :=
  ∃ name returns binds, r = .callFunction name returns binds ∧ returns ∉ m.numbers ∧
    (m.runs? r).any succeeds

/-! ## Storing -/

theorem run_store_of_mem {slot : Nat} (h : slot ∈ m.numbers) (new : Stored) :
    ∃ after, (store slot new).run.run m = (.ok (), after) ∧ after.numbers = m.numbers := by
  have hnumbers := (Touches.store List.mem_cons_self new m : Touches [slot] m _).numbers
  rw [run_store] at hnumbers ⊢
  cases hlookup : m.slots.lookup slot with
  | none => exact absurd h (lookup_eq_none_iff.mp hlookup)
  | some old =>
    rw [hlookup] at hnumbers
    exact ⟨_, rfl, hnumbers⟩

theorem run_store_of_notMem {slot : Nat} (h : slot ∉ m.numbers) (new : Stored) :
    (store slot new).run.run m = (.error (invalidSlot slot), m) := by
  rw [run_store, lookup_eq_none_iff.mpr h]

/-- **Slots that are in use can be written back to**, one after the other. -/
theorem run_writeBack_of_mem {binds : List (Bind Nat)}
    (h : ∀ p ∈ binds.filterMap (·.placeholder?), p ∈ m.numbers) (left : List Stored) :
    ∃ after, (writeBack binds left).run.run m = (.ok (), after) := by
  induction binds generalizing m left with
  | nil => exact ⟨m, rfl⟩
  | cons bind binds ih =>
    cases left with
    | nil => cases bind <;> exact ⟨m, rfl⟩
    | cons stored left =>
      cases bind with
      | value v => exact ih h left
      | placeholder slot =>
        obtain ⟨hslot, hbinds⟩ := List.forall_mem_cons.mp h
        obtain ⟨now, hstore, hnumbers⟩ := run_store_of_mem hslot stored
        obtain ⟨after, hrest⟩ := ih (fun p hp => hnumbers ▸ hbinds p hp) left
        exact ⟨after, (Session.run_bind_of_ok hstore).trans hrest⟩

/-! ## Calls -/

section Call

variable {name : String} {returns : Nat} {binds : List (Bind Nat)} {run : Body × List Stored}

/-- If there is a body to run, the slots that are passed to it are in use. -/
theorem mem_numbers_of_runs?_callProcedure (h : m.runs? (.callProcedure name binds) = some run) :
    ∀ p ∈ binds.filterMap (·.placeholder?), p ∈ m.numbers := by
  intro p hp
  by_contra hnot
  rw [runs?, mapM_content?_eq_none_of_notMem hp hnot] at h
  cases h

theorem mem_numbers_of_runs?_callFunction
    (h : m.runs? (.callFunction name returns binds) = some run) :
    ∀ p ∈ binds.filterMap (·.placeholder?), p ∈ m.numbers := by
  intro p hp
  by_contra hnot
  rw [runs?, mapM_content?_eq_none_of_notMem hp hnot] at h
  cases h

/-- **A call of a procedure** is refused, and nothing is noted, or it is granted and noted. -/
theorem run_callProcedure_cases (m : Memory) (name : String) (binds : List (Bind Nat)) :
    (m.noted (.callProcedure name binds) = [] ∧
      ∃ e, (callProcedure name binds).run.run m = (.error e, m)) ∨
    (m.noted (.callProcedure name binds) = [name] ∧
      ∃ after, (callProcedure name binds).run.run m = (.ok (), after)) := by
  cases hruns : m.runs? (.callProcedure name binds) with
  | none => exact .inl ⟨noted_eq_nil hruns, run_callProcedure_of_none hruns⟩
  | some run =>
    obtain ⟨body, arguments⟩ := run
    have hmem := mem_numbers_of_runs?_callProcedure hruns
    rw [run_callProcedure hruns]
    cases hbody : body arguments with
    | error e => exact .inl ⟨noted_of_error hruns hbody, e, rfl⟩
    | ok made =>
      have hnow : ∀ p ∈ binds.filterMap (·.placeholder?),
          p ∈ { m with calls := m.calls ++ [name] }.numbers := hmem
      exact .inr ⟨noted_of_ok hruns hbody, run_writeBack_of_mem hnow made.1.val⟩

/-- **A call of a function** needs a slot for its result as well, and if that is not in use, the
call is refused when it has been noted already. -/
theorem run_callFunction_cases (m : Memory) (name : String) (returns : Nat)
    (binds : List (Bind Nat)) :
    (m.noted (.callFunction name returns binds) = [] ∧
      ∃ e, (callFunction name returns binds).run.run m = (.error e, m)) ∨
    (m.noted (.callFunction name returns binds) = [name] ∧ returns ∈ m.numbers ∧
      ∃ after, (callFunction name returns binds).run.run m = (.ok (), after)) ∨
    (m.noted (.callFunction name returns binds) = [name] ∧ returns ∉ m.numbers ∧
      (callFunction name returns binds).run.run m =
        (.error (invalidSlot returns), { m with calls := m.calls ++ [name] })) := by
  cases hruns : m.runs? (.callFunction name returns binds) with
  | none => exact .inl ⟨noted_eq_nil hruns, run_callFunction_of_none hruns⟩
  | some run =>
    obtain ⟨body, arguments⟩ := run
    have hmem := mem_numbers_of_runs?_callFunction hruns
    rw [run_callFunction hruns]
    cases hbody : body arguments with
    | error e => exact .inl ⟨noted_of_error hruns hbody, e, rfl⟩
    | ok made =>
      have hnoted := noted_of_ok hruns hbody
      by_cases hreturns : returns ∈ m.numbers
      · have hnow : returns ∈ { m with calls := m.calls ++ [name] }.numbers := hreturns
        obtain ⟨now, hstore, hnumbers⟩ := run_store_of_mem hnow made.2
        obtain ⟨after, hrest⟩ :=
          run_writeBack_of_mem (fun p hp => hnumbers ▸ hmem p hp) made.1.val
        exact .inr (.inl ⟨hnoted, hreturns, after, (Session.run_bind_of_ok hstore).trans hrest⟩)
      · have hstore := run_store_of_notMem (m := { m with calls := m.calls ++ [name] })
          hreturns made.2
        exact .inr (.inr ⟨hnoted, hreturns, Session.run_bind_of_error hstore⟩)

/-- Storing changes no routine. -/
theorem leads_store_routines (routines : List (String × Routine)) (slot : Nat) (new : Stored) :
    Leads (·.routines = routines) (·.routines = routines) (store slot new).run := by
  intro now hnow
  rw [run_store]
  split <;> exact hnow

theorem leads_writeBack_routines (routines : List (String × Routine)) (binds : List (Bind Nat))
    (left : List Stored) :
    Leads (·.routines = routines) (·.routines = routines) (writeBack binds left).run := by
  induction binds generalizing left with
  | nil => exact .pure _
  | cons bind binds ih =>
    cases left with
    | nil => cases bind <;> exact .pure _
    | cons stored left =>
      cases bind with
      | value v => exact ih left
      | placeholder slot =>
        exact .bind_session (leads_store_routines routines slot stored) fun _ => ih left

/-- Nor does a call, so it cannot change what a later call runs. -/
theorem routines_callProcedure :
    ((callProcedure name binds).run.run m).2.routines = m.routines := by
  cases hruns : m.runs? (.callProcedure name binds) with
  | none =>
    obtain ⟨e, he⟩ := run_callProcedure_of_none hruns
    rw [he]
  | some run =>
    obtain ⟨body, arguments⟩ := run
    rw [run_callProcedure hruns]
    cases body arguments with
    | error e => rfl
    | ok made => exact leads_writeBack_routines m.routines binds made.1.val _ rfl

theorem routines_callFunction :
    ((callFunction name returns binds).run.run m).2.routines = m.routines := by
  cases hruns : m.runs? (.callFunction name returns binds) with
  | none =>
    obtain ⟨e, he⟩ := run_callFunction_of_none hruns
    rw [he]
  | some run =>
    obtain ⟨body, arguments⟩ := run
    rw [run_callFunction hruns]
    cases body arguments with
    | error e => rfl
    | ok made =>
      exact Leads.bind_session (leads_store_routines m.routines returns made.2)
        (fun _ => leads_writeBack_routines m.routines binds made.1.val) _ rfl

end Call

/-! ## Requests -/

/-- A call is answered as the operation behind it is. -/
theorem answer_callProcedure {name : String} {binds : List (Bind Nat)} {after : Memory}
    {result : Except Error Unit} (h : (callProcedure name binds).run.run m = (result, after)) :
    driver.answer (.callProcedure name binds) m = (result.map fun _ => ⟨binds, rfl⟩, after) :=
  run_ask_callProcedure h

theorem answer_callFunction {name : String} {returns : Nat} {binds : List (Bind Nat)}
    {after : Memory} {result : Except Error Unit}
    (h : (callFunction name returns binds).run.run m = (result, after)) :
    driver.answer (.callFunction name returns binds) m =
      (result.map fun _ => ⟨binds, rfl⟩, after) :=
  run_ask_callFunction h

/-- **What is left of a request that is refused** is the name that was noted, if one was. -/
theorem refused_eq_noted {e : Error} (h : (driver.answer r m).1 = .error e) :
    (driver.answer r m).2 = { m with calls := m.calls ++ m.noted r } := by
  have hquiet : { m with calls := m.calls ++ [] } = m := by rw [List.append_nil]
  cases r with
  | allocate token family => cases h
  | materialize v => cases h
  | seed slot v =>
    have hrun : driver.answer (.seed slot v) m = (store slot (.value v)).run.run m := rfl
    rw [hrun, run_store] at h ⊢
    rw [noted_eq_nil rfl, hquiet]
    cases hlookup : m.slots.lookup slot with
    | none => rfl
    | some old =>
      rw [hlookup] at h
      cases h
  | read slot =>
    have hrun : driver.answer (.read slot) m = (read slot).run.run m := rfl
    rw [hrun, run_read, noted_eq_nil rfl, hquiet]
    split <;> rfl
  | release slot =>
    have hrun : driver.answer (.release slot) m = (release slot).run.run m := rfl
    rw [hrun, run_release] at h ⊢
    rw [noted_eq_nil rfl, hquiet]
    cases hlookup : m.slots.lookup slot with
    | none => rfl
    | some old =>
      rw [hlookup] at h
      cases h
  | callProcedure name binds =>
    rcases run_callProcedure_cases m name binds with ⟨hnoted, e', hrun⟩ | ⟨-, after, hrun⟩
    · rw [answer_callProcedure hrun, hnoted, hquiet]
    · rw [answer_callProcedure hrun] at h
      cases h
  | callFunction name returns binds =>
    rcases run_callFunction_cases m name returns binds with
      ⟨hnoted, e', hrun⟩ | ⟨-, -, after, hrun⟩ | ⟨hnoted, -, hrun⟩
    · rw [answer_callFunction hrun, hnoted, hquiet]
    · rw [answer_callFunction hrun] at h
      cases h
    · rw [answer_callFunction hrun, hnoted]

/-- A name is noted for the requests that run a body, and the body succeeds. -/
theorem noted_ne_nil_of_any (h : (m.runs? r).any succeeds) : m.noted r ≠ [] := by
  rw [noted, if_pos h]
  cases r with
  | callProcedure name binds => exact List.cons_ne_nil name []
  | callFunction name returns binds => exact List.cons_ne_nil name []
  | _ => cases h

theorem any_of_noted_ne_nil (h : m.noted r ≠ []) : (m.runs? r).any succeeds := by
  by_contra hnot
  exact h (if_neg hnot)

/-- A request that loses its result is refused for the slot of the result, and noted. -/
theorem LosesResult.answer {name : String} {returns : Nat} {binds : List (Bind Nat)}
    (h : m.LosesResult (.callFunction name returns binds)) :
    (driver.answer (.callFunction name returns binds) m).1 = .error (invalidSlot returns) ∧
      m.noted (.callFunction name returns binds) = [name] := by
  obtain ⟨_, _, _, heq, hreturns, hany⟩ := h
  cases heq
  have hnoted := noted_ne_nil_of_any hany
  rcases run_callFunction_cases m name returns binds with
    ⟨hnil, -⟩ | ⟨-, hmem, -⟩ | ⟨hname, -, hrun⟩
  · exact absurd hnil hnoted
  · exact absurd hmem hreturns
  · rw [answer_callFunction hrun]
    exact ⟨rfl, hname⟩

/-- **Nothing else** is refused after it was noted. -/
theorem noted_ne_nil_iff_losesResult {e : Error} (h : (driver.answer r m).1 = .error e) :
    m.noted r ≠ [] ↔ m.LosesResult r := by
  constructor
  · intro hnoted
    have hany := any_of_noted_ne_nil hnoted
    cases r with
    | callProcedure name binds =>
      rcases run_callProcedure_cases m name binds with ⟨hnil, -⟩ | ⟨-, after, hrun⟩
      · exact absurd hnil hnoted
      · rw [answer_callProcedure hrun] at h
        cases h
    | callFunction name returns binds =>
      rcases run_callFunction_cases m name returns binds with
        ⟨hnil, -⟩ | ⟨-, -, after, hrun⟩ | ⟨-, hreturns, -⟩
      · exact absurd hnil hnoted
      · rw [answer_callFunction hrun] at h
        cases h
      · exact ⟨name, returns, binds, rfl, hreturns, hany⟩
    | _ => cases hany
  · rintro ⟨_, _, _, -, -, hany⟩
    exact noted_ne_nil_of_any hany

/-- **A call that is granted** is noted, and touches the slots that it mentions. -/
theorem touches_of_granted {name : String} (hr : r.routine? = some name) {reply : r.Reply Cursor}
    (h : (driver.answer r m).1 = .ok reply) :
    Touches r.placeholders { m with calls := m.calls ++ [name] } (driver.answer r m).2 ∧
      (driver.answer r m).2.routines = m.routines := by
  cases r with
  | callProcedure routine binds =>
    obtain rfl := Option.some.inj hr
    rcases run_callProcedure_cases m routine binds with ⟨-, e, hrun⟩ | ⟨hnoted, after, hrun⟩
    · rw [answer_callProcedure hrun] at h
      cases h
    · have hafter : ((callProcedure routine binds).run.run m).2 = after := congrArg Prod.snd hrun
      rw [answer_callProcedure hrun]
      refine ⟨?_, hafter ▸ routines_callProcedure⟩
      rw [← hnoted, ← hafter]
      exact touches_callProcedure
  | callFunction routine returns binds =>
    obtain rfl := Option.some.inj hr
    rcases run_callFunction_cases m routine returns binds with
      ⟨-, e, hrun⟩ | ⟨hnoted, -, after, hrun⟩ | ⟨-, -, hrun⟩
    · rw [answer_callFunction hrun] at h
      cases h
    · have hafter : ((callFunction routine returns binds).run.run m).2 = after :=
        congrArg Prod.snd hrun
      rw [answer_callFunction hrun]
      refine ⟨?_, hafter ▸ routines_callFunction⟩
      rw [← hnoted, ← hafter]
      exact touches_callFunction
    · rw [answer_callFunction hrun] at h
      cases h
  | _ => cases hr

/-- **Refused requests.** A request that is refused changes nothing, unless it loses its result:
then it is refused for the slot of the result, and all that has changed is that the call was noted.
A call that is granted is noted once, and the slots that it does not mention hold what they held. -/
theorem refused_unchanged_iff_not_losesResult (m : Memory) (r : Request Nat Value) :
    (∀ e, (driver.answer r m).1 = .error e → ((driver.answer r m).2 = m ↔ ¬ m.LosesResult r)) ∧
    (∀ name returns binds, r = .callFunction name returns binds → m.LosesResult r →
      (driver.answer r m).1 = .error (invalidSlot returns) ∧
        (driver.answer r m).2 = { m with calls := m.calls ++ [name] }) ∧
    (∀ name reply, r.routine? = some name → (driver.answer r m).1 = .ok reply →
      let after := (driver.answer r m).2
      after.calls = m.calls ++ [name] ∧ after.nextSlot = m.nextSlot ∧
        after.routines = m.routines ∧ after.numbers = m.numbers ∧
        after.slots.filter (fun entry => entry.1 ∉ r.placeholders) =
          m.slots.filter fun entry => entry.1 ∉ r.placeholders) := by
  refine ⟨fun e he => ?_, ?_, ?_⟩
  · rw [refused_eq_noted he, ← noted_ne_nil_iff_losesResult he, not_not]
    constructor
    · intro hsame
      exact List.append_right_eq_self.mp (congrArg Memory.calls hsame)
    · intro hnil
      rw [hnil, List.append_nil]
  · rintro name returns binds rfl hloses
    obtain ⟨hanswer, hnoted⟩ := hloses.answer
    rw [refused_eq_noted hanswer, hnoted]
    exact ⟨hanswer, rfl⟩
  · intro name reply hname hreply
    obtain ⟨htouches, hroutines⟩ := touches_of_granted hname hreply
    refine ⟨htouches.calls, htouches.next, hroutines, htouches.numbers, ?_⟩
    exact htouches.others (fun p => p ∉ r.placeholders) fun p hp => decide_eq_false (not_not.mpr hp)

/-- A function without arguments is registered, a slot is allocated and released, and the function
is called with it for its result: the call is refused, and the name of the function is noted. -/
theorem loses_result_of_released_slot :
    let body : Body := fun arguments => .ok (⟨arguments, rfl⟩, .value .null)
    let m := (driver.answer (.release 0) (driver.answer (.allocate "NUMBER" .scalar)
      (empty.register "F" (.function body))).2).2
    Reachable m ∧ m.calls = [] ∧
      (driver.answer (.callFunction "F" 0 []) m).1 = .error (invalidSlot 0) ∧
      (driver.answer (.callFunction "F" 0 []) m).2 = { m with calls := ["F"] } := by
  intro body m
  have hlookup : m.routines.lookup (key "F") = some (.function body) := List.lookup_cons_self
  have hruns : m.runs? (.callFunction "F" 0 []) = some (body, []) := by
    rw [runs?, List.mapM_nil, hlookup]
    rfl
  have hloses : m.LosesResult (.callFunction "F" 0 []) := by
    refine ⟨"F", 0, [], rfl, List.not_mem_nil, ?_⟩
    rw [hruns]
    rfl
  exact ⟨.answer _ (.answer _ (.register _ _ .empty)), rfl,
    (refused_unchanged_iff_not_losesResult m _).2.1 "F" 0 [] rfl hloses⟩

end StoredRoutine.Memory
