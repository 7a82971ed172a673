import StoredRoutine.Proofs.Memory.Application
import StoredRoutine.Proofs.Session.Invariant

/-!
# The effect of requests

What a session in memory is after a sequence of requests can be read off the trace: `Effect t m m'`
says so. Numbers are handed out upwards, each once; the slots in use are those that were in use and
those that were handed out, without those that were released; what no request mentions holds what
it held; and the names that were noted are those of the routines whose bodies succeeded.

An effect is put together from effects (`Effect.append`), so it is enough to know that of a single
request (`effect_answer`). Most requests allocate and release nothing. Of them it is known that
they touch nothing but the slots that they mention (`Touches`), and that those have to be in use
(`exists_error_of_notMem_numbers`).
-/

namespace StoredRoutine

variable {S P L C : Type}

/-! ## Traces -/

/-- The placeholder that was given back. -/
def Event.freed? : Event S P L C → Option P
  | ⟨_, .release p, .ok _⟩ => some p
  | _ => none

/-- Only an allocation hands a placeholder out. -/
theorem Event.allocated?_eq_none {e : Event S P L C}
    (h : ∀ token family, e.request ≠ .allocate token family) : e.allocated? = none := by
  obtain ⟨before, r, answer⟩ := e
  cases r <;> cases answer <;> first | rfl | exact absurd rfl (h _ _)

/-- Only a release gives one back. -/
theorem Event.freed?_eq_none {e : Event S P L C} (h : ∀ p, e.request ≠ .release p) :
    e.freed? = none := by
  obtain ⟨before, r, answer⟩ := e
  cases r <;> cases answer <;> first | rfl | exact absurd rfl (h _)

/-- The placeholders that are handed out in the course of a trace, in order. -/
def handedOut (t : Trace S P L C) : List P := t.filterMap Event.allocated?

/-- The placeholders that are given back in the course of a trace, in order. A release that is
refused gives nothing back. -/
def freed (t : Trace S P L C) : List P := t.filterMap Event.freed?

@[simp] theorem handedOut_append (t u : Trace S P L C) :
    handedOut (t ++ u) = handedOut t ++ handedOut u := List.filterMap_append

@[simp] theorem freed_append (t u : Trace S P L C) : freed (t ++ u) = freed t ++ freed u :=
  List.filterMap_append

/-- What is left of two traces one after the other, if nothing is handed out that was given back
before. -/
theorem filter_handedOut_append [DecidableEq P] {t u : Trace S P L C}
    (h : ∀ p ∈ handedOut u, p ∉ freed t) (ps : List P) :
    ((ps ++ handedOut t).filter (· ∉ freed t) ++ handedOut u).filter (· ∉ freed u) =
      (ps ++ handedOut (t ++ u)).filter (· ∉ freed (t ++ u)) := by
  have hlater : (handedOut u).filter (· ∉ freed t) = handedOut u :=
    List.filter_eq_self.mpr fun p hp => decide_eq_true (h p hp)
  calc ((ps ++ handedOut t).filter (· ∉ freed t) ++ handedOut u).filter (· ∉ freed u)
      = ((ps ++ handedOut t ++ handedOut u).filter (· ∉ freed t)).filter (· ∉ freed u) := by
        rw [List.filter_append (ps ++ _), hlater]
    _ = (ps ++ handedOut (t ++ u)).filter (· ∉ freed (t ++ u)) := by
        rw [List.filter_filter, handedOut_append, freed_append, List.append_assoc]
        refine List.filter_congr fun p _ => ?_
        simp [Bool.and_comm]

namespace Memory

/-- The numbers of the slots in use. -/
def numbers (m : Memory) : List Nat := m.slots.map (·.1)

theorem lookup_eq_none_iff {m : Memory} {slot : Nat} :
    m.slots.lookup slot = none ↔ slot ∉ m.numbers := by
  rw [List.lookup_eq_none_iff, numbers, List.mem_map, not_exists]
  refine forall_congr' fun entry => ?_
  rw [bne_iff_ne, not_and]
  exact imp_congr_right fun _ => ne_comm

/-- Does the body succeed on these contents? -/
def succeeds (run : Body × List Stored) : Bool := (run.1 run.2).isOk

/-- The name that is noted when the request is answered: that of a routine whose body succeeds. -/
def noted (m : Memory) (r : Request Nat Value) : List String :=
  if (m.runs? r).any succeeds then r.routine?.toList else []

theorem noted_eq_nil {m : Memory} {r : Request Nat Value} (h : m.runs? r = none) :
    m.noted r = [] := by
  rw [noted, h]
  rfl

section Noted

variable {m : Memory} {r : Request Nat Value} {body : Body} {arguments : List Stored}
  (hruns : m.runs? r = some (body, arguments))

include hruns

theorem noted_of_error {e : Error} (h : body arguments = .error e) : m.noted r = [] := by
  have hfails : succeeds (body, arguments) = false := congrArg Except.isOk h
  rw [noted, hruns, Option.any_some, hfails]
  rfl

theorem noted_of_ok {after : { left : List Stored // left.length = arguments.length } × Stored}
    (h : body arguments = .ok after) : m.noted r = r.routine?.toList := by
  have hsucceeds : succeeds (body, arguments) = true := congrArg Except.isOk h
  rw [noted, hruns, Option.any_some, hsucceeds]
  rfl

end Noted

/-! ## Requests that change contents only -/

/-- From `m` to `m'` nothing changed but what the slots among `ps` hold. -/
structure Touches (ps : List Nat) (m m' : Memory) : Prop where
  next : m'.nextSlot = m.nextSlot
  numbers : m'.numbers = m.numbers
  others : ∀ keep : Nat → Bool, (∀ p ∈ ps, keep p = false) →
    m'.slots.filter (fun entry => keep entry.1) = m.slots.filter fun entry => keep entry.1
  calls : m'.calls = m.calls

namespace Touches

variable {ps : List Nat} {m m' m'' : Memory}

theorem refl (ps : List Nat) (m : Memory) : Touches ps m m := ⟨rfl, rfl, fun _ _ => rfl, rfl⟩

theorem trans (h : Touches ps m m') (h' : Touches ps m' m'') : Touches ps m m'' where
  next := h'.next.trans h.next
  numbers := h'.numbers.trans h.numbers
  others keep hkeep := (h'.others keep hkeep).trans (h.others keep hkeep)
  calls := h'.calls.trans h.calls

/-- Storing something in a slot touches that slot. -/
theorem store {slot : Nat} (hslot : slot ∈ ps) (new : Stored) (m : Memory) :
    Touches ps m ((store slot new).run.run m).2 := by
  rw [run_store]
  cases m.slots.lookup slot with
  | none => exact refl ps m
  | some old =>
    have hkey : ∀ entry : Nat × Stored,
        (if entry.1 = slot then (entry.1, old.store new) else (entry.1, entry.2)).1 = entry.1 := by
      intro entry
      split <;> rfl
    refine ⟨rfl, ?_, fun keep hkeep => ?_, rfl⟩
    · rw [Memory.numbers, List.map_map]
      exact List.map_congr_left fun entry _ => hkey entry
    · rw [List.filter_map]
      have hfilter : m.slots.filter ((fun entry : Nat × Stored => keep entry.1) ∘ fun entry =>
          if entry.1 = slot then (entry.1, old.store new) else (entry.1, entry.2)) =
            m.slots.filter fun entry => keep entry.1 :=
        List.filter_congr fun entry _ => congrArg keep (hkey entry)
      refine (congrArg _ hfilter).trans ?_
      -- what is kept is another slot
      refine (List.map_congr_left fun entry hentry => ?_).trans (List.map_id _)
      have hother : entry.1 ≠ slot := by
        intro hsame
        have hkept := (List.mem_filter.mp hentry).2
        rw [hsame, hkeep slot hslot] at hkept
        cases hkept
      exact if_neg hother

theorem leads_store {slot : Nat} (hslot : slot ∈ ps) (new : Stored) :
    Leads (Touches ps m) (Touches ps m) (Memory.store slot new).run :=
  fun now h => h.trans (store hslot new now)

theorem leads_writeBack {binds : List (Bind Nat)}
    (hbinds : ∀ p ∈ binds.filterMap (·.placeholder?), p ∈ ps) (left : List Stored) :
    Leads (Touches ps m) (Touches ps m) (writeBack binds left).run := by
  induction binds generalizing left with
  | nil => exact .pure _
  | cons bind binds ih =>
    cases left with
    | nil => cases bind <;> exact .pure _
    | cons stored left =>
      cases bind with
      | value v => exact ih hbinds left
      | placeholder slot =>
        obtain ⟨hslot, hbinds⟩ := List.forall_mem_cons.mp hbinds
        exact .bind_session (leads_store hslot stored) fun _ => ih hbinds left

end Touches

/-! ## Calls -/

section Call

variable {m : Memory} {name : String} {binds : List (Bind Nat)}

theorem run_argument (m : Memory) (bind : Bind Nat) :
    (∃ content, m.content? bind = some content ∧
      (argument bind).run.run m = (.ok content, m)) ∨
    (m.content? bind = none ∧ ∃ e, (argument bind).run.run m = (.error e, m)) := by
  cases bind with
  | value v => exact .inl ⟨_, rfl, rfl⟩
  | placeholder slot =>
    rw [argument, run_fetch, content?]
    cases m.slots.lookup slot with
    | some stored => exact .inl ⟨stored, rfl, rfl⟩
    | none => exact .inr ⟨rfl, _, rfl⟩

theorem mapM_content?_eq_none {bind : Bind Nat} (hmem : bind ∈ binds)
    (h : m.content? bind = none) : binds.mapM m.content? = none := by
  induction binds with
  | nil => cases hmem
  | cons first binds ih =>
    rw [List.mapM_cons]
    rcases List.mem_cons.mp hmem with rfl | hmem
    · rw [h]
      rfl
    · rw [ih hmem]
      cases m.content? first <;> rfl

/-- A slot that is not in use cannot be passed. -/
theorem mapM_content?_eq_none_of_notMem {slot : Nat}
    (hslot : slot ∈ binds.filterMap (·.placeholder?)) (h : slot ∉ m.numbers) :
    binds.mapM m.content? = none := by
  obtain ⟨bind, hbind, hplaceholder⟩ := List.mem_filterMap.mp hslot
  have hnone : m.content? bind = none := by
    cases bind with
    | value v => cases hplaceholder
    | placeholder p =>
      obtain rfl := Option.some.inj hplaceholder
      exact lookup_eq_none_iff.mpr h
  exact mapM_content?_eq_none hbind hnone

theorem run_arguments_of_none (h : binds.mapM m.content? = none) :
    ∃ e, (binds.mapM argument).run.run m = (.error e, m) := by
  induction binds with
  | nil => cases h
  | cons bind binds ih =>
    rw [List.mapM_cons] at h ⊢
    rcases run_argument m bind with ⟨content, hcontent, hrun⟩ | ⟨-, e, hrun⟩
    · rw [hcontent] at h
      cases hcontents : binds.mapM m.content? with
      | none =>
        obtain ⟨e, he⟩ := ih hcontents
        exact ⟨e, by rw [Session.run_bind_of_ok hrun, Session.run_bind_of_error he]⟩
      | some contents =>
        rw [hcontents] at h
        cases h
    · exact ⟨e, Session.run_bind_of_error hrun⟩

/-- A call begins with the contents of the arguments and with the routine. -/
theorem run_call_of_error {f : List Stored → Routine → Session Memory Unit}
    (h : ∀ contents r, binds.mapM m.content? = some contents →
      m.routines.lookup (key name) = some r → ∃ e, (f contents r).run.run m = (.error e, m)) :
    ∃ e, (do f (← binds.mapM argument) (← routine name) : Session Memory Unit).run.run m =
      (.error e, m) := by
  cases hcontents : binds.mapM m.content? with
  | none =>
    obtain ⟨e, he⟩ := run_arguments_of_none hcontents
    exact ⟨e, Session.run_bind_of_error he⟩
  | some contents =>
    rw [Session.run_bind_of_ok (run_arguments hcontents)]
    cases hroutine : m.routines.lookup (key name) with
    | none => exact ⟨_, Session.run_bind_of_error (by rw [run_routine, hroutine])⟩
    | some r =>
      rw [Session.run_bind_of_ok (by rw [run_routine, hroutine])]
      exact h contents r hcontents hroutine

/-- If there is nothing to run, the call is refused and nothing changes. -/
theorem run_callProcedure_of_none (h : m.runs? (.callProcedure name binds) = none) :
    ∃ e, (callProcedure name binds).run.run m = (.error e, m) := by
  refine run_call_of_error fun contents r hcontents hroutine => ?_
  cases r with
  | function body => exact ⟨_, rfl⟩
  | procedure body =>
    rw [runs?, hcontents, hroutine] at h
    cases h

theorem run_callFunction_of_none {returns : Nat}
    (h : m.runs? (.callFunction name returns binds) = none) :
    ∃ e, (callFunction name returns binds).run.run m = (.error e, m) := by
  refine run_call_of_error fun contents r hcontents hroutine => ?_
  cases r with
  | procedure body => exact ⟨_, rfl⟩
  | function body =>
    rw [runs?, hcontents, hroutine] at h
    cases h

/-- **A call** notes the name if the body succeeds, and then touches what it mentions. -/
theorem touches_callProcedure :
    Touches (binds.filterMap (·.placeholder?))
      { m with calls := m.calls ++ m.noted (.callProcedure name binds) }
      ((callProcedure name binds).run.run m).2 := by
  cases hruns : m.runs? (.callProcedure name binds) with
  | none =>
    obtain ⟨e, he⟩ := run_callProcedure_of_none hruns
    rw [he, noted_eq_nil hruns, List.append_nil]
    exact .refl _ _
  | some run =>
    obtain ⟨body, arguments⟩ := run
    rw [run_callProcedure hruns]
    cases hbody : body arguments with
    | error e =>
      rw [noted_of_error hruns hbody, List.append_nil]
      exact .refl _ _
    | ok after =>
      rw [noted_of_ok hruns hbody]
      exact Touches.leads_writeBack (fun p hp => hp) after.1.val _ (.refl _ _)

theorem touches_callFunction {returns : Nat} :
    Touches (returns :: binds.filterMap (·.placeholder?))
      { m with calls := m.calls ++ m.noted (.callFunction name returns binds) }
      ((callFunction name returns binds).run.run m).2 := by
  cases hruns : m.runs? (.callFunction name returns binds) with
  | none =>
    obtain ⟨e, he⟩ := run_callFunction_of_none hruns
    rw [he, noted_eq_nil hruns, List.append_nil]
    exact .refl _ _
  | some run =>
    obtain ⟨body, arguments⟩ := run
    rw [run_callFunction hruns]
    cases hbody : body arguments with
    | error e =>
      rw [noted_of_error hruns hbody, List.append_nil]
      exact .refl _ _
    | ok after =>
      rw [noted_of_ok hruns hbody]
      have hwrite : ∀ p ∈ binds.filterMap (·.placeholder?),
          p ∈ returns :: binds.filterMap (·.placeholder?) := fun p hp => List.mem_cons_of_mem _ hp
      exact Leads.bind_session (Touches.leads_store List.mem_cons_self after.2)
        (fun _ => Touches.leads_writeBack hwrite after.1.val) _ (.refl _ _)

end Call

/-- **Nothing can be asked of a slot that is not in use.** -/
theorem exists_error_of_notMem_numbers {m : Memory} {r : Request Nat Value} {slot : Nat}
    (hslot : slot ∈ r.placeholders) (h : slot ∉ m.numbers) :
    ∃ e, (driver.answer r m).1 = .error e := by
  have hlookup : m.slots.lookup slot = none := lookup_eq_none_iff.mpr h
  cases r with
  | allocate token family => cases hslot
  | materialize v => cases hslot
  | seed p v =>
    obtain rfl := List.mem_singleton.mp hslot
    have hrun : driver.answer (.seed slot v) m = (store slot (.value v)).run.run m := rfl
    rw [hrun, run_store, hlookup]
    exact ⟨_, rfl⟩
  | read p =>
    obtain rfl := List.mem_singleton.mp hslot
    have hrun : driver.answer (.read slot) m = (read slot).run.run m := rfl
    rw [hrun, run_read, hlookup]
    exact ⟨_, rfl⟩
  | release p =>
    obtain rfl := List.mem_singleton.mp hslot
    have hrun : driver.answer (.release slot) m = (release slot).run.run m := rfl
    rw [hrun, run_release, hlookup]
    exact ⟨_, rfl⟩
  | callProcedure name binds =>
    have hruns : m.runs? (.callProcedure name binds) = none := by
      rw [runs?, mapM_content?_eq_none_of_notMem hslot h]
    obtain ⟨e, he⟩ := run_callProcedure_of_none hruns
    have hrun := run_ask_callProcedure he
    exact ⟨e, congrArg Prod.fst hrun⟩
  | callFunction name returns binds =>
    suffices hsuff : ∃ e, ((callFunction name returns binds).run.run m).1 = .error e by
      obtain ⟨e, he⟩ := hsuff
      have hrun := run_ask_callFunction (Prod.ext he rfl :
        (callFunction name returns binds).run.run m = (.error e, _))
      exact ⟨e, congrArg Prod.fst hrun⟩
    cases hruns : m.runs? (.callFunction name returns binds) with
    | none =>
      obtain ⟨e, he⟩ := run_callFunction_of_none hruns
      exact ⟨e, congrArg Prod.fst he⟩
    | some run =>
      obtain ⟨body, arguments⟩ := run
      -- the arguments can be passed, so it is the slot for the result that is not in use
      obtain rfl : slot = returns := by
        rcases List.mem_cons.mp hslot with hreturns | hmem
        · exact hreturns
        · rw [runs?, mapM_content?_eq_none_of_notMem hmem h] at hruns
          cases hruns
      rw [run_callFunction hruns]
      cases body arguments with
      | error e => exact ⟨e, rfl⟩
      | ok after =>
        have hstore : (store slot after.2).run.run { m with calls := m.calls ++ [name] } =
            (.error (invalidSlot slot), { m with calls := m.calls ++ [name] }) := by
          rw [run_store]
          dsimp only
          rw [hlookup]
        exact ⟨_, congrArg Prod.fst (Session.run_bind_of_error hstore)⟩

/-! ## Effects -/

/-- The names that are noted in the course of a trace. -/
def notedIn (t : Trace Memory Nat Value Cursor) : List String :=
  t.flatMap fun e => e.before.noted e.request

/-- **The effect of a trace** that leads from `m` to `m'`. -/
structure Effect (t : Trace Memory Nat Value Cursor) (m m' : Memory) : Prop where
  /-- Numbers are handed out upwards. -/
  handedOut : handedOut t = List.range' m.nextSlot (handedOut t).length
  next : m'.nextSlot = m.nextSlot + (StoredRoutine.handedOut t).length
  /-- A slot is in use from when it is handed out until it is given back. -/
  numbers : m'.numbers = (m.numbers ++ StoredRoutine.handedOut t).filter (· ∉ freed t)
  /-- What is given back has been handed out. -/
  freed_lt : ∀ p ∈ freed t, p < m'.nextSlot
  /-- Slots that are older than any that is mentioned stay as they are. -/
  older : ∀ n ≤ m.nextSlot, (∀ e ∈ t, ∀ p ∈ e.request.placeholders, n ≤ p) →
    m'.slots.filter (fun entry => entry.1 < n) = m.slots.filter fun entry => entry.1 < n
  /-- The names of routines that succeed are noted. -/
  calls : m'.calls = m.calls ++ notedIn t

namespace Effect

variable {t u : Trace Memory Nat Value Cursor} {m m' m'' : Memory}

theorem nil (m : Memory) : Effect [] m m where
  handedOut := rfl
  next := rfl
  numbers := by simp [StoredRoutine.handedOut, freed]
  freed_lt := by simp [freed]
  older := fun _ _ _ => rfl
  calls := (List.append_nil _).symm

theorem nextSlot_le (h : Effect t m m') : m.nextSlot ≤ m'.nextSlot := by
  rw [h.next]
  exact Nat.le_add_right _ _

/-- **Composition.** -/
theorem append (h : Effect t m m') (h' : Effect u m' m'') : Effect (t ++ u) m m'' where
  handedOut := by
    rw [handedOut_append, List.length_append, ← List.range'_append_1, ← h.next, ← h.handedOut,
      ← h'.handedOut]
  next := by
    rw [handedOut_append, List.length_append, h'.next, h.next, Nat.add_assoc]
  numbers := by
    rw [h'.numbers, h.numbers]
    refine filter_handedOut_append (fun p hp hfreed => ?_) m.numbers
    rw [h'.handedOut] at hp
    have hle := (List.mem_range'_1.mp hp).1
    have hlt := h.freed_lt p hfreed
    omega
  freed_lt := by
    rw [freed_append]
    intro p hp
    rcases List.mem_append.mp hp with hp | hp
    · exact (h.freed_lt p hp).trans_le h'.nextSlot_le
    · exact h'.freed_lt p hp
  older := by
    intro n hn hmentions
    rw [h'.older n (hn.trans h.nextSlot_le) fun e he => hmentions e (List.mem_append_right _ he)]
    exact h.older n hn fun e he => hmentions e (List.mem_append_left _ he)
  calls := by
    rw [h'.calls, h.calls, List.append_assoc, notedIn, notedIn, notedIn, List.flatMap_append]

/-- A request that only touches what it mentions, and notes what it has to. -/
theorem of_touches {e : Event Memory Nat Value Cursor} {after : Memory}
    (hallocated : e.allocated? = none) (hfreed : e.freed? = none)
    (h : Touches e.request.placeholders
      { e.before with calls := e.before.calls ++ e.before.noted e.request } after) :
    Effect [e] e.before after := by
  have hnone : StoredRoutine.handedOut [e] = [] := List.filterMap_cons_none hallocated
  have hnothing : freed [e] = [] := List.filterMap_cons_none hfreed
  refine ⟨?_, ?_, ?_, ?_, ?_, ?_⟩
  · rw [hnone]
    rfl
  · rw [hnone]
    exact h.next
  · rw [hnone, hnothing, List.append_nil]
    refine h.numbers.trans (List.filter_eq_self.mpr fun p _ => ?_).symm
    exact decide_eq_true (List.not_mem_nil)
  · rw [hnothing]
    intro p hp
    cases hp
  · intro n _ hmentions
    refine h.others (fun k => k < n) fun p hp => ?_
    have hle := hmentions e List.mem_cons_self p hp
    exact decide_eq_false (by omega)
  · rw [notedIn, List.flatMap_singleton]
    exact h.calls

/-- A slot that is handed out is the next one, and it is new. -/
theorem allocate (m : Memory) (token : String) (family : Family) :
    Effect [⟨m, .allocate token family, (driver.answer (.allocate token family) m).1⟩] m
      (driver.answer (.allocate token family) m).2 := by
  refine ⟨rfl, rfl, ?_, ?_, fun n hn _ => ?_, (List.append_nil _).symm⟩
  · have hnumbers : (driver.answer (.allocate token family) m).2.numbers =
        m.numbers ++ [m.nextSlot] := List.map_append
    rw [hnumbers]
    exact (List.filter_eq_self.mpr fun p _ => decide_eq_true List.not_mem_nil).symm
  · intro p hp
    cases hp
  · have hslots : (driver.answer (.allocate token family) m).2.slots =
        m.slots ++ [(m.nextSlot, .emptyFor family)] := rfl
    have hnew : decide (m.nextSlot < n) = false := decide_eq_false (by omega)
    rw [hslots, List.filter_append, List.filter_cons_of_neg (by simp [hnew])]
    exact List.append_nil _

/-- A slot that is given back is not in use any more. -/
theorem release (hm : WellNumbered m) (slot : Nat) :
    Effect [⟨m, .release slot, (driver.answer (.release slot) m).1⟩] m
      (driver.answer (.release slot) m).2 := by
  have hanswer : driver.answer (.release slot) m = (Memory.release slot).run.run m := rfl
  rw [hanswer, run_release]
  cases hlookup : m.slots.lookup slot with
  | none =>
    refine of_touches rfl rfl ?_
    rw [noted_eq_nil rfl, List.append_nil]
    exact .refl _ _
  | some stored =>
    have hslot : slot < m.nextSlot := by
      have hmem : slot ∈ m.numbers := by
        by_contra hnot
        rw [lookup_eq_none_iff.mpr hnot] at hlookup
        cases hlookup
      obtain ⟨entry, hentry, rfl⟩ := List.mem_map.mp hmem
      exact hm entry hentry
    refine ⟨rfl, rfl, ?_, ?_, fun n _ hmentions => ?_, (List.append_nil _).symm⟩
    · have hnumbers : (m.slots.filter fun entry => entry.1 ≠ slot).map (·.1) =
          m.numbers.filter (· ≠ slot) := by
        rw [Memory.numbers, List.filter_map]
        rfl
      refine hnumbers.trans ?_
      rw [StoredRoutine.handedOut, List.filterMap_cons_none rfl, List.filterMap_nil,
        List.append_nil]
      refine List.filter_congr fun p _ => ?_
      simp [freed, Event.freed?]
    · intro p hp
      obtain rfl := List.mem_singleton.mp hp
      exact hslot
    · have hle : n ≤ slot := hmentions _ List.mem_cons_self slot List.mem_cons_self
      rw [List.filter_filter]
      refine List.filter_congr fun entry _ => ?_
      rw [Bool.and_eq_left_iff_imp]
      intro hlt
      have hlt := of_decide_eq_true hlt
      exact decide_eq_true (by omega)

end Effect

/-- **Every request has its effect.** -/
theorem effect_answer {m : Memory} (hm : WellNumbered m) (r : Request Nat Value) :
    Effect [⟨m, r, (driver.answer r m).1⟩] m (driver.answer r m).2 := by
  cases r with
  | allocate token family => exact .allocate m token family
  | release slot => exact .release hm slot
  | seed slot v =>
    refine .of_touches (Event.allocated?_eq_none nofun) (Event.freed?_eq_none nofun) ?_
    rw [noted_eq_nil rfl, List.append_nil]
    exact .store List.mem_cons_self _ m
  | read slot =>
    refine .of_touches (Event.allocated?_eq_none nofun) (Event.freed?_eq_none nofun) ?_
    have hsame : (driver.answer (.read slot) m).2 = m := by
      have hrun : driver.answer (.read slot) m = (read slot).run.run m := rfl
      rw [hrun, run_read]
      split <;> rfl
    rw [noted_eq_nil rfl, List.append_nil, hsame]
    exact .refl _ m
  | materialize v =>
    refine .of_touches rfl rfl ?_
    rw [noted_eq_nil rfl, List.append_nil]
    exact .refl _ m
  | callProcedure name binds =>
    refine .of_touches (Event.allocated?_eq_none nofun) (Event.freed?_eq_none nofun) ?_
    have hstate : (driver.answer (.callProcedure name binds) m).2 =
        ((callProcedure name binds).run.run m).2 := congrArg Prod.snd (run_ask_callProcedure rfl)
    rw [hstate]
    exact touches_callProcedure
  | callFunction name returns binds =>
    refine .of_touches (Event.allocated?_eq_none nofun) (Event.freed?_eq_none nofun) ?_
    have hstate : (driver.answer (.callFunction name returns binds) m).2 =
        ((callFunction name returns binds).run.run m).2 :=
      congrArg Prod.snd (run_ask_callFunction rfl)
    rw [hstate]
    exact touches_callFunction

/-- **A whole session has its effect.** -/
theorem Effect.of_steps {s m : Memory} {t : Trace Memory Nat Value Cursor} (hs : WellNumbered s)
    (h : driver.Steps s t m) : Effect t s m ∧ WellNumbered m := by
  induction h with
  | nil => exact ⟨.nil s, hs⟩
  | ask _ r ih =>
    obtain ⟨heffect, hnumbers⟩ := ih
    exact ⟨heffect.append (effect_answer hnumbers r), KeepsNumbers.ask r _ hnumbers⟩

end Memory

end StoredRoutine
