import StoredRoutine.Execution

/-!
# The record of a session

What an execution asks of its driver is a list of requests, and most of what can be promised to a
driver is a property of that list. A driver is therefore put under observation: `Driver.recorded`
answers as the driver does and writes an `Event` for every request, and `Driver.trace` is the list
of the events of one execution.

A computation that is run on a recorded driver should do what it does on the driver itself.
`Records x y s Q` says so of one run: `x` gives the result that `y` gives from the state `s`, ends
in the same state, and adds to the record a trace that `Q` holds of, together with the result.
The rules for it (`pure`, `bind`, `bind_session`, `attempt`, `ask`) follow the way computations
are put together, so the properties of a trace are found by walking along the code.
-/

namespace StoredRoutine

variable {S P L C : Type} {α β : Type}

/-- A request that was made, the state of the driver it was made in, and how it was answered. -/
structure Event (S P L C : Type) where
  before : S
  request : Request P L
  answer : Except Error (request.Reply C)

/-- The events of a session, in order. -/
abbrev Trace (S P L C : Type) : Type := List (Event S P L C)

/-- The driver under observation: it answers as before, and keeps a record of what it is asked. -/
def Driver.recorded (d : Driver S P L C) : Driver (S × Trace S P L C) P L C where
  answer r s :=
    let (answer, after) := d.answer r s.1
    (answer, (after, s.2 ++ [⟨s.1, r, answer⟩]))

/-- The events of the execution of a call that begins in the state `s`. -/
def Driver.trace (d : Driver S P L C) (m : CallModel) (inputs : List Value) (s : S) :
    Trace S P L C :=
  ((d.recorded.execute m inputs).run.run (s, [])).2.2

/-- From the state `s`, the computation `x` on a recorded driver does what `y` does on the driver
itself, and what it adds to the record is such that `Q` holds of it and the result. -/
def Records (x : StateM (S × Trace S P L C) α) (y : StateM S α) (s : S)
    (Q : Trace S P L C → α → Prop) : Prop :=
  ∃ u, (∀ t, x.run (s, t) = ((y.run s).1, ((y.run s).2, t ++ u))) ∧ Q u (y.run s).1

namespace Records

variable {s : S}

theorem mono {x : StateM (S × Trace S P L C) α} {y : StateM S α}
    {Q R : Trace S P L C → α → Prop} (h : Records x y s Q) (hQ : ∀ u a, Q u a → R u a) :
    Records x y s R := by
  obtain ⟨u, hrun, hq⟩ := h
  exact ⟨u, hrun, hQ _ _ hq⟩

/-- There is only one trace that a run adds, so what is known of it can be put together. -/
theorem and {x : StateM (S × Trace S P L C) α} {y : StateM S α}
    {Q R : Trace S P L C → α → Prop} (hQ : Records x y s Q) (hR : Records x y s R) :
    Records x y s fun u a => Q u a ∧ R u a := by
  obtain ⟨u, hrun, hq⟩ := hQ
  obtain ⟨v, hrun', hr⟩ := hR
  have hsame := (hrun []).symm.trans (hrun' [])
  obtain rfl : u = v := congrArg (fun result => result.2.2) hsame
  exact ⟨u, hrun, hq, hr⟩

/-- A result that is there already adds nothing. -/
theorem pure {a : α} {Q : Trace S P L C → α → Prop} (h : Q [] a) :
    Records (Pure.pure a) (Pure.pure a) s Q := by
  refine ⟨[], fun t => ?_, h⟩
  rw [List.append_nil]
  rfl

/-- **Sequencing.** What two computations in sequence add is what the first adds, and then what
the second does. -/
theorem bind {x : StateM (S × Trace S P L C) α} {y : StateM S α}
    {f : α → StateM (S × Trace S P L C) β} {g : α → StateM S β}
    {Q : Trace S P L C → α → Prop} {R : Trace S P L C → β → Prop} (h : Records x y s Q)
    (hf : ∀ u a after, y.run s = (a, after) → Q u a →
      Records (f a) (g a) after fun v b => R (u ++ v) b) :
    Records (x >>= f) (y >>= g) s R := by
  obtain ⟨u, hx, hq⟩ := h
  obtain ⟨v, hv, hr⟩ := hf u _ _ rfl hq
  refine ⟨u ++ v, fun t => ?_, hr⟩
  have hrun : (x >>= f).run (s, t) = (f (x.run (s, t)).1).run (x.run (s, t)).2 := rfl
  rw [hrun, hx, ← List.append_assoc]
  exact hv (t ++ u)

/-- Sequencing of computations that can fail: an error ends the sequence. -/
theorem bind_session {x : Session (S × Trace S P L C) α} {y : Session S α}
    {f : α → Session (S × Trace S P L C) β} {g : α → Session S β}
    {Q : Trace S P L C → Except Error α → Prop} {R : Trace S P L C → Except Error β → Prop}
    (h : Records x.run y.run s Q) (herror : ∀ u e, Q u (.error e) → R u (.error e))
    (hok : ∀ u a after, y.run.run s = (.ok a, after) → Q u (.ok a) →
      Records (f a).run (g a).run after fun v b => R (u ++ v) b) :
    Records (x >>= f).run (y >>= g).run s R := by
  rw [ExceptT.run_bind, ExceptT.run_bind]
  refine h.bind fun u a after hy hq => ?_
  cases a with
  | error e => exact .pure (by rw [List.append_nil]; exact herror u e hq)
  | ok a => exact hok u a after hy hq

/-- A computation with a handler for its errors. -/
theorem attempt {x : Session (S × Trace S P L C) α} {y : Session S α}
    {f : Error → Session (S × Trace S P L C) α} {g : Error → Session S α}
    {Q R : Trace S P L C → Except Error α → Prop} (h : Records x.run y.run s Q)
    (hok : ∀ u a, Q u (.ok a) → R u (.ok a))
    (herror : ∀ u e after, y.run.run s = (.error e, after) → Q u (.error e) →
      Records (f e).run (g e).run after fun v b => R (u ++ v) b) :
    Records (tryCatch x f).run (tryCatch y g).run s R := by
  rw [ExceptT.run_tryCatch, ExceptT.run_tryCatch]
  refine h.bind fun u a after hy hq => ?_
  cases a with
  | ok a => exact .pure (by rw [List.append_nil]; exact hok u a hq)
  | error e => exact herror u e after hy hq

/-- A request adds its own event. -/
theorem ask (d : Driver S P L C) (r : Request P L) :
    Records (d.recorded.ask r).run (d.ask r).run s fun u a =>
      u = [⟨s, r, a⟩] ∧ a = (d.answer r s).1 :=
  ⟨_, fun _ => rfl, rfl, rfl⟩

end Records

/-- Observation changes nothing: if an execution on the recorded driver does what the execution
does, then `Q` holds of its trace and its result. -/
theorem Records.trace {d : Driver S P L C} {m : CallModel} {inputs : List Value} {s : S}
    {Q : Trace S P L C → Except Error (Outcome C) → Prop}
    (h : Records (d.recorded.execute m inputs).run (d.execute m inputs).run s Q) :
    Q (d.trace m inputs s) ((d.execute m inputs).run.run s).1 := by
  obtain ⟨u, hrun, hq⟩ := h
  have htrace : d.trace m inputs s = u := by
    rw [Driver.trace, hrun []]
    rfl
  rw [htrace]
  exact hq

end StoredRoutine
