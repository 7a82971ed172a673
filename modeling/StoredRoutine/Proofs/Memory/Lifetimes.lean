import StoredRoutine.Proofs.Memory.Effects

/-!
# The lifetimes of slots

A session in memory can be used in two ways: requests can be made by hand, with any slots, and calls
can be executed. The two do not get into each other's way. A call works on slots of its own, which
are younger than all that are in use, and it gives every one of them back, however it ends, since no
release of it can be refused (`isRefused_eq_false_of_isRelease`). So a session is left as it was but
for the numbers that were used up and for the name of the routine (`run_execute_slots`).

`History.of ops` is the session after the operations `ops`, together with what passed in it, and
`history_slots` says what that means for a slot: it is in use from when it is handed out by hand
until it is given back by hand, and it is never handed out again.
-/

namespace StoredRoutine

namespace Memory

/-! ## Binds -/

/-- The calls of a session in memory leave the binds as they are. -/
theorem driver_keepsBinds : driver.KeepsBinds := by
  constructor
  · intro name binds m left hanswer
    have hrun : (driver.answer (.callProcedure name binds) m).1 =
        ((callProcedure name binds).run.run m).1.map fun _ => ⟨binds, rfl⟩ :=
      congrArg Prod.fst (run_ask_callProcedure rfl)
    rw [hrun] at hanswer
    cases h : ((callProcedure name binds).run.run m).1 <;> rw [h] at hanswer <;> cases hanswer
    rfl
  · intro name returns binds m left hanswer
    have hrun : (driver.answer (.callFunction name returns binds) m).1 =
        ((callFunction name returns binds).run.run m).1.map fun _ => ⟨binds, rfl⟩ :=
      congrArg Prod.fst (run_ask_callFunction rfl)
    rw [hrun] at hanswer
    cases h : ((callFunction name returns binds).run.run m).1 <;> rw [h] at hanswer <;>
      cases hanswer
    rfl

/-! ## Orderly sessions -/

section Orderly

variable {s after : Memory} {t : Trace Memory Nat Value Cursor} {left : Multiset Nat}

/-- What is mentioned was handed out. -/
theorem mem_handedOut_of_mentioned (h : Orderly 0 t left) {e : Event Memory Nat Value Cursor}
    (he : e ∈ t) {p : Nat} (hp : p ∈ e.request.placeholders) : p ∈ handedOut t := by
  obtain ⟨before, rest, rfl⟩ := List.append_of_mem he
  have hle := h.mentions before e rest rfl
  rw [zero_add] at hle
  have hmem : p ∈ allocated before :=
    Multiset.mem_of_le hle (Multiset.mem_add.mpr (.inl (Multiset.mem_coe.mpr hp)))
  rw [handedOut_append]
  exact List.mem_append_left _ (Multiset.mem_coe.mp hmem)

/-- What is given back was asked to be. -/
theorem mem_released_of_mem_freed {p : Nat} (hp : p ∈ freed t) : p ∈ released t := by
  obtain ⟨⟨before, r, answer⟩, he, hfreed⟩ := List.mem_filterMap.mp hp
  refine Multiset.mem_coe.mpr (List.mem_filterMap.mpr ⟨_, he, ?_⟩)
  cases r <;> cases answer <;> first | exact hfreed | cases hfreed

/-- If no release is refused, what is asked to be given back is given back. -/
theorem freed_eq_of_granted (h : ∀ e ∈ t, e.request.isRelease → e.isRefused = false) :
    (freed t : Multiset Nat) = released t := by
  refine congrArg _ (List.filterMap_congr fun e he => ?_)
  have hgranted := h e he
  obtain ⟨before, r, answer⟩ := e
  cases r <;> cases answer <;> first | rfl | cases hgranted rfl

variable (hs : WellNumbered s) (hsteps : driver.Steps s t after) (horderly : Orderly 0 t left)

include hs hsteps horderly

/-- **No release is refused** to a session that has in hand what it releases. -/
theorem isRefused_eq_false_of_isRelease {e : Event Memory Nat Value Cursor} (he : e ∈ t)
    (hrelease : e.request.isRelease) : e.isRefused = false := by
  obtain ⟨before, rest, rfl⟩ := List.append_of_mem he
  obtain ⟨hbefore, hanswer⟩ := hsteps.of_append rfl
  obtain ⟨heffect, -⟩ := Effect.of_steps hs hbefore
  obtain ⟨now, r, answer⟩ := e
  cases r with
  | release p =>
    have hle : p ::ₘ released before ≤ allocated before := by
      rw [← Multiset.singleton_add, ← zero_add (allocated before)]
      exact horderly.mentions before _ rest rfl
    -- the slot was handed out once, so it was not released yet
    have hnodup : (allocated before).Nodup := by
      have hrange : (handedOut before).Nodup := by
        rw [heffect.handedOut]
        exact List.nodup_range'
      exact Multiset.coe_nodup.mpr hrange
    have hnot : p ∉ released before :=
      (Multiset.nodup_cons.mp (Multiset.nodup_of_le hle hnodup)).1
    have hmem : p ∈ handedOut before :=
      Multiset.mem_coe.mp (Multiset.mem_of_le hle (Multiset.mem_cons_self p _))
    have hlive : p ∈ now.numbers := by
      rw [heffect.numbers]
      refine List.mem_filter.mpr ⟨List.mem_append_right _ hmem, decide_eq_true fun hfreed => ?_⟩
      exact hnot (mem_released_of_mem_freed hfreed)
    cases hlookup : now.slots.lookup p with
    | none => exact absurd hlive (lookup_eq_none_iff.mp hlookup)
    | some stored =>
      have hgranted : (driver.answer (.release p) now).1 = .ok () := by
        have hrun : driver.answer (.release p) now = (Memory.release p).run.run now := rfl
        rw [hrun, run_release, hlookup]
      obtain rfl : answer = .ok () := hanswer.trans hgranted
      rfl
  | _ => cases hrelease

/-- **An orderly session leaves no trace** in the slots if it has nothing in hand at the end. -/
theorem slots_eq_of_orderly (hleft : left = 0) : after.slots = s.slots := by
  obtain ⟨heffect, -⟩ := Effect.of_steps hs hsteps
  have hfreed : ∀ p, p ∈ freed t ↔ p ∈ handedOut t := by
    intro p
    have hbalance := horderly.balance
    rw [hleft, add_zero, zero_add, ← freed_eq_of_granted fun e he =>
      isRefused_eq_false_of_isRelease hs hsteps horderly he] at hbalance
    rw [← Multiset.mem_coe, hbalance]
    exact Multiset.mem_coe
  have hyoung : ∀ p ∈ handedOut t, s.nextSlot ≤ p := by
    intro p hp
    rw [heffect.handedOut] at hp
    exact (List.mem_range'_1.mp hp).1
  -- the slots in use are those that were
  have hold : ∀ entry ∈ after.slots, entry.1 < s.nextSlot := by
    intro entry hentry
    have hmem : entry.1 ∈ after.numbers := List.mem_map_of_mem hentry
    rw [heffect.numbers] at hmem
    obtain ⟨hmem, hnot⟩ := List.mem_filter.mp hmem
    rcases List.mem_append.mp hmem with hmem | hmem
    · obtain ⟨old, hold, heq⟩ := List.mem_map.mp hmem
      rw [← heq]
      exact hs old hold
    · exact absurd ((hfreed _).mpr hmem) (of_decide_eq_true hnot)
  have hmentions : ∀ e ∈ t, ∀ p ∈ e.request.placeholders, s.nextSlot ≤ p :=
    fun e he p hp => hyoung p (mem_handedOut_of_mentioned horderly he hp)
  calc after.slots
      = after.slots.filter (fun entry => entry.1 < s.nextSlot) :=
        (List.filter_eq_self.mpr fun entry h => decide_eq_true (hold entry h)).symm
    _ = s.slots.filter (fun entry => entry.1 < s.nextSlot) :=
        heffect.older s.nextSlot le_rfl hmentions
    _ = s.slots := List.filter_eq_self.mpr fun entry h => decide_eq_true (hs entry h)

end Orderly

/-! ## Executions -/

/-- An execution has nothing in hand at the end, if no release is refused. -/
theorem exists_orderly_trace (m : CallModel) (inputs : List Value) (s : Memory) :
    ∃ left : Multiset Nat, Orderly 0 (driver.trace m inputs s) left ∧
      ((∀ e ∈ driver.trace m inputs s, e.request.isRelease → e.isRefused = false) → left = 0) := by
  by_cases h : inputs.length = m.inputArity
  · obtain ⟨horderly, -, hgranted⟩ := (records_execute driver_keepsBinds m inputs s h).trace
    exact ⟨_, horderly, fun hall => congrArg _ (hgranted hall)⟩
  · rw [trace_eq_nil_of_ne driver h]
    exact ⟨0, .nil 0, fun _ => rfl⟩

/-- Only calls run something. -/
theorem runs?_eq_none (m : Memory) {r : Request Nat Value} (h : r.routine? = none) :
    m.runs? r = none := by
  cases r <;> first | rfl | cases h

/-- Where at most one routine is called, at most one is run, and its name is noted if it
succeeds. -/
theorem notedIn_eq_of_called {t : Trace Memory Nat Value Cursor} (h : (called t).length ≤ 1) :
    (runs t).length ≤ (called t).length ∧
      notedIn t = if (runs t).any succeeds then called t else [] := by
  induction t with
  | nil => exact ⟨le_rfl, rfl⟩
  | cons e t ih =>
    cases hroutine : e.request.routine? with
    | none =>
      have hcalled : called (e :: t) = called t := List.filterMap_cons_none hroutine
      have hnone := runs?_eq_none e.before hroutine
      have hruns : runs (e :: t) = runs t := List.filterMap_cons_none hnone
      have hnoted : notedIn (e :: t) = notedIn t := by
        rw [notedIn, List.flatMap_cons, noted_eq_nil hnone, List.nil_append, notedIn]
      rw [hcalled, hruns, hnoted]
      exact ih (hcalled ▸ h)
    | some name =>
      have hcalled : called (e :: t) = name :: called t := List.filterMap_cons_some hroutine
      -- there is no other call
      have hothers : called t = [] := by
        rw [hcalled, List.length_cons] at h
        exact List.eq_nil_of_length_eq_zero (by omega)
      obtain ⟨hruns, hnoted⟩ := ih (by simp [hothers])
      rw [hothers] at hruns hnoted
      have hnothing : runs t = [] := List.eq_nil_of_length_eq_zero (Nat.le_zero.mp hruns)
      have hname : notedIn (e :: t) = e.before.noted e.request := by
        rw [notedIn, List.flatMap_cons, ← notedIn, hnoted, hnothing]
        exact List.append_nil _
      rw [hcalled, hothers, hname, noted, hroutine]
      cases hrun : e.before.runs? e.request with
      | none =>
        have hruns : runs (e :: t) = runs t := List.filterMap_cons_none hrun
        rw [hruns, hnothing]
        exact ⟨Nat.zero_le _, rfl⟩
      | some run =>
        have hruns : runs (e :: t) = run :: runs t := List.filterMap_cons_some hrun
        rw [hruns, hnothing, Option.any_some, List.any_cons, List.any_nil, Bool.or_false]
        exact ⟨le_rfl, rfl⟩

/-- **An execution leaves the slots as they are**, whatever is in them, and notes the name of the
routine if it was run with success. -/
theorem run_execute_slots {s : Memory} (hs : WellNumbered s) (m : CallModel) (inputs : List Value) :
    let after := ((driver.execute m inputs).run.run s).2
    let t := driver.trace m inputs s
    Effect t s after ∧ after.slots = s.slots ∧ (runs t).length ≤ 1 ∧
      after.calls = s.calls ++ if (runs t).any succeeds then [m.name] else [] := by
  intro after t
  obtain ⟨hsteps, hcalled⟩ := steps_trace driver_keepsBinds m inputs s
  obtain ⟨heffect, -⟩ := Effect.of_steps hs hsteps
  obtain ⟨left, horderly, hleft⟩ := exists_orderly_trace m inputs s
  have hgranted : ∀ e ∈ t, e.request.isRelease → e.isRefused = false :=
    fun e he => isRefused_eq_false_of_isRelease hs hsteps horderly he
  refine ⟨heffect, slots_eq_of_orderly hs hsteps horderly (hleft hgranted), ?_⟩
  have hone : (called t).length ≤ 1 := by
    rcases hcalled with hcalled | hcalled <;> simp [t, hcalled]
  obtain ⟨hruns, hnoted⟩ := notedIn_eq_of_called hone
  refine ⟨hruns.trans hone, heffect.calls.trans (congrArg _ ?_)⟩
  rcases hcalled with hnone | hcalled
  · -- nothing is called, and nothing is run
    have hruns : runs t = [] := by
      rw [hnone] at hruns
      exact List.eq_nil_of_length_eq_zero (Nat.le_zero.mp hruns)
    rw [hnoted, hruns]
    rfl
  · rw [hnoted, hcalled]

/-! ## Histories -/

/-- What can be done with a session. -/
inductive Operation where
  /-- A routine is registered. -/
  | register (name : String) (routine : Routine)
  /-- A request is made by hand. -/
  | request (r : Request Nat Value)
  /-- A call is executed. -/
  | execute (m : CallModel) (inputs : List Value)

/-- A session, with what has passed in it. -/
structure History where
  memory : Memory
  /-- the requests that were made by hand -/
  byHand : Trace Memory Nat Value Cursor
  /-- all requests, with those that were made by executions -/
  whole : Trace Memory Nat Value Cursor

namespace History

/-- One more operation. -/
def step (h : History) : Operation → History
  | .register name routine => { h with memory := h.memory.register name routine }
  | .request r =>
    let (answer, after) := driver.answer r h.memory
    ⟨after, h.byHand ++ [⟨h.memory, r, answer⟩], h.whole ++ [⟨h.memory, r, answer⟩]⟩
  | .execute m inputs =>
    ⟨((driver.execute m inputs).run.run h.memory).2, h.byHand,
      h.whole ++ driver.trace m inputs h.memory⟩

/-- A session that begins without routines, after the operations. -/
def of (ops : List Operation) : History := ops.foldl step ⟨empty, [], []⟩

/-- **The invariant of a session.** -/
structure Consistent (h : History) : Prop where
  wellNumbered : WellNumbered h.memory
  /-- Every number is handed out once, in order. -/
  handedOut : handedOut h.whole = List.range h.memory.nextSlot
  /-- The slots in use are those of the requests that were made by hand. -/
  numbers : h.memory.numbers = (StoredRoutine.handedOut h.byHand).filter (· ∉ freed h.byHand)
  freed_lt : ∀ p ∈ freed h.byHand, p < h.memory.nextSlot

/-- What is handed out from a state on continues what was handed out before. -/
theorem handedOut_append_of_effect {t u : Trace Memory Nat Value Cursor} {m m' : Memory}
    (ht : StoredRoutine.handedOut t = List.range m.nextSlot) (hu : Effect u m m') :
    StoredRoutine.handedOut (t ++ u) = List.range m'.nextSlot := by
  rw [handedOut_append, ht, hu.handedOut, hu.next, List.range_eq_range', List.range_eq_range',
    ← List.range'_append_1, Nat.zero_add]

/-- **Every operation keeps the invariant.** -/
theorem Consistent.step {h : History} (hh : h.Consistent) (op : Operation) :
    (h.step op).Consistent := by
  cases op with
  | register name routine => exact ⟨hh.wellNumbered, hh.handedOut, hh.numbers, hh.freed_lt⟩
  | request r =>
    have heffect := effect_answer hh.wellNumbered r
    refine ⟨KeepsNumbers.ask r _ hh.wellNumbered, handedOut_append_of_effect hh.handedOut heffect,
      ?_, ?_⟩
    · refine heffect.numbers.trans ?_
      rw [hh.numbers]
      refine filter_handedOut_append (fun p hp hfreed => ?_) []
      rw [heffect.handedOut] at hp
      have hle := (List.mem_range'_1.mp hp).1
      have hlt := hh.freed_lt p hfreed
      omega
    · intro p hp
      rw [History.step, freed_append] at hp
      rcases List.mem_append.mp hp with hp | hp
      · exact (hh.freed_lt p hp).trans_le heffect.nextSlot_le
      · exact heffect.freed_lt p hp
  | execute m inputs =>
    obtain ⟨heffect, hslots, -, -⟩ := run_execute_slots hh.wellNumbered m inputs
    refine ⟨fun entry hentry => ?_, handedOut_append_of_effect hh.handedOut heffect, ?_,
      fun p hp => (hh.freed_lt p hp).trans_le heffect.nextSlot_le⟩
    · have hold : entry ∈ h.memory.slots := by
        rw [← hslots]
        exact hentry
      exact (hh.wellNumbered entry hold).trans_le heffect.nextSlot_le
    · have hsame : ((driver.execute m inputs).run.run h.memory).2.numbers = h.memory.numbers := by
        rw [Memory.numbers, hslots, Memory.numbers]
      exact hsame.trans hh.numbers

theorem consistent_of (ops : List Operation) : (of ops).Consistent := by
  have hempty : Consistent ⟨empty, [], []⟩ :=
    ⟨fun entry hentry => (by cases hentry), rfl, rfl, fun p hp => (by cases hp)⟩
  suffices h : ∀ start : History, start.Consistent → (ops.foldl History.step start).Consistent from
    h _ hempty
  induction ops with
  | nil => exact fun start h => h
  | cons op ops ih => exact fun start h => ih _ (h.step op)

end History

/-! ## Main statement -/

/-- **Slots over a whole session.** After any operations, the slots in use are those that were
handed out by hand and not given back by hand; no number was handed out twice, whether by hand or
to an execution; and whatever is asked of a slot that is not in use is refused. An execution that
comes next, of any model on any inputs and however it ends, leaves the slots and what they hold as
they are. It runs at most one body, and it notes the name of the model exactly if a body is run with
success. -/
theorem history_slots (ops : List Operation) :
    let h := History.of ops
    h.memory.numbers = (handedOut h.byHand).filter (· ∉ freed h.byHand) ∧
      (handedOut h.whole).Nodup ∧
      (∀ r : Request Nat Value, ∀ slot ∈ r.placeholders, slot ∉ h.memory.numbers →
        ∃ e, (driver.answer r h.memory).1 = .error e) ∧
      ∀ (m : CallModel) (inputs : List Value),
        let after := ((driver.execute m inputs).run.run h.memory).2
        let bodies := runs (driver.trace m inputs h.memory)
        after.slots = h.memory.slots ∧ bodies.length ≤ 1 ∧
          after.calls = h.memory.calls ++ if bodies.any succeeds then [m.name] else [] := by
  intro h
  have hconsistent : h.Consistent := History.consistent_of ops
  refine ⟨hconsistent.numbers, ?_, fun r slot hslot => exists_error_of_notMem_numbers hslot,
    fun m inputs => (run_execute_slots hconsistent.wellNumbered m inputs).2⟩
  rw [hconsistent.handedOut]
  exact List.nodup_range

/-- The number of a slot that was given back is not used again. -/
example : (History.of [.request (.allocate "NUMBER" .scalar), .request (.release 0),
    .request (.release 0), .request (.allocate "CLOB" .largeObject)]).memory.numbers = [1] := by
  decide

end Memory

end StoredRoutine
