import Mathlib.Data.List.Induction
import StoredRoutine.Proofs.Entries
import StoredRoutine.Proofs.Memory.Lifetimes
import StoredRoutine.Proofs.Memory.Refusals

/-!
# What a slot for a large object comes back as

What a slot holds is decided by what was stored in it, one after the other, since it was allocated
(`Run.lookup_eq`). `storedIn slot t` lists that for a trace: the values it was seeded with, and what
the bodies that were run made for it, as an argument or as a result.

A slot for a large object holds a large object at first, and storing a plain value in it keeps that.
The family it was allocated for is not remembered, though. Once rows are stored in it, it is a slot
like any other, and a plain value that is stored later is read as a plain value. `Lapsed` says of
what was stored that this has happened, and `read_largeObject_slot` that it is the only way for a
value in such a slot not to come back through a locator.
-/

namespace StoredRoutine

namespace Stored

/-! ## One after the other -/

/-- Is it a plain value? -/
def isPlain : Stored → Bool
  | value _ => true
  | _ => false

/-- Apart from plain values, the last that was stored are rows. -/
def Lapsed (stored : List Stored) : Prop :=
  ∃ front content values, stored = front ++ .rows content :: values ∧ ∀ s ∈ values, s.isPlain

theorem not_lapsed_nil : ¬ Lapsed [] := by
  rintro ⟨front, content, values, h, -⟩
  simp at h

/-- A plain value leaves this as it is, and anything else decides it. -/
theorem lapsed_concat_iff {stored : List Stored} {s : Stored} :
    Lapsed (stored ++ [s]) ↔ (∃ content, s = .rows content) ∨ s.isPlain ∧ Lapsed stored := by
  constructor
  · rintro ⟨front, content, values, h, hplain⟩
    rcases List.eq_nil_or_concat values with rfl | ⟨values, last, rfl⟩
    · exact .inl ⟨content, (List.cons.inj (List.append_inj' h rfl).2).1⟩
    · rw [List.concat_eq_append, ← List.cons_append, ← List.append_assoc] at h
      obtain ⟨rfl, hlast⟩ := List.append_inj' h rfl
      obtain rfl := (List.cons.inj hlast).1
      rw [List.concat_eq_append] at hplain
      exact .inr ⟨hplain s (by simp), front, content, values, rfl,
        fun t ht => hplain t (List.mem_append_left _ ht)⟩
  · rintro (⟨content, rfl⟩ | ⟨hs, front, content, values, rfl, hplain⟩)
    · exact ⟨stored, content, [], rfl, by simp⟩
    · refine ⟨front, content, values ++ [s], by simp, fun t ht => ?_⟩
      rcases List.mem_append.mp ht with ht | ht
      · exact hplain t ht
      · rwa [List.mem_singleton.mp ht]

/-- Anything but a plain value replaces what was there. -/
theorem store_of_not_isPlain (old : Stored) {new : Stored} (h : new.isPlain = false) :
    old.store new = new := by
  cases new with
  | value v => cases h
  | _ => cases old <;> rfl

/-- Anything but a large object is replaced by what is stored. -/
theorem store_of_ne_lob {old : Stored} (h : ∀ v, old ≠ .lob v) (new : Stored) :
    old.store new = new := by
  cases old with
  | lob v => exact absurd rfl (h v)
  | _ => rfl

/-- **A large object stays one**, unless rows take its place. -/
theorem exists_foldl_store_eq_lob {stored : List Stored} (h : ¬ Lapsed stored) (content : Value) :
    ∃ v, stored.foldl store (.lob content) = .lob v := by
  induction stored using List.reverseRecOn with
  | nil => exact ⟨content, rfl⟩
  | append_singleton stored s ih =>
    rw [lapsed_concat_iff, not_or, not_and] at h
    rw [List.foldl_concat]
    cases s with
    | value v =>
      obtain ⟨w, hw⟩ := ih (h.2 rfl)
      exact ⟨v, by rw [hw, store]⟩
    | lob v => exact ⟨v, store_of_not_isPlain _ rfl⟩
    | rows content => exact absurd ⟨content, rfl⟩ h.1

/-- **Once rows have taken its place** there is no large object, up to the next one that is
stored. -/
theorem foldl_store_ne_lob {stored : List Stored} (h : Lapsed stored) (old : Stored) (v : Value) :
    stored.foldl store old ≠ .lob v := by
  induction stored using List.reverseRecOn generalizing v with
  | nil => exact absurd h not_lapsed_nil
  | append_singleton stored s ih =>
    rw [List.foldl_concat]
    rcases lapsed_concat_iff.mp h with ⟨content, rfl⟩ | ⟨hs, hstored⟩
    · rw [store_of_not_isPlain _ rfl]
      exact nofun
    · rw [store_of_ne_lob (ih hstored)]
      cases s with
      | value w => exact nofun
      | _ => cases hs

/-- What a slot for large objects holds after a value was stored last: a large object with that
value, unless it has lapsed. -/
theorem foldl_store_value {stored : List Stored} {last : Stored} {v : Value}
    (hlast : stored.getLast? = some last) (hv : last.value? = some v) :
    (¬ Lapsed stored → stored.foldl store (.emptyFor .largeObject) = .lob v) ∧
      (Lapsed stored →
        last = .value v ∧ stored.foldl store (.emptyFor .largeObject) = .value v) := by
  obtain ⟨stored, rfl⟩ := List.getLast?_eq_some_iff.mp hlast
  rw [List.foldl_concat, lapsed_concat_iff]
  cases last with
  | value w =>
    cases hv
    constructor
    · intro h
      rw [not_or, not_and] at h
      obtain ⟨content, hcontent⟩ := exists_foldl_store_eq_lob (h.2 rfl) .null
      rw [emptyFor, hcontent, store]
    · rintro (⟨content, ⟨⟩⟩ | ⟨-, hlapsed⟩)
      exact ⟨rfl, store_of_ne_lob (foldl_store_ne_lob hlapsed _) _⟩
  | lob w =>
    cases hv
    refine ⟨fun _ => store_of_not_isPlain _ rfl, ?_⟩
    rintro (⟨content, ⟨⟩⟩ | ⟨⟨⟩, -⟩)
  | rows content => cases hv

end Stored

namespace Memory

/-! ## What is stored in a slot -/

/-- What the body makes that is run when the request is answered: what it leaves in the arguments,
and its result. -/
def made? (m : Memory) (r : Request Nat Value) : Option (List Stored × Stored) :=
  match m.runs? r with
  | none => none
  | some (body, arguments) =>
    match body arguments with
    | .error _ => none
    | .ok (left, result) => some (left.val, result)

/-- What is written back to the slot: what is left in the arguments it is bound to. -/
def writtenTo (slot : Nat) (binds : List (Bind Nat)) (left : List Stored) : List Stored :=
  ((binds.zip left).filter fun (bind, _) => bind = .placeholder slot).map (·.2)

/-- What is stored in the slot when the request is granted, in order. -/
def stores (m : Memory) (slot : Nat) : Request Nat Value → List Stored
  | .seed p v => if p = slot then [.value v] else []
  | .callProcedure name binds =>
    match m.made? (.callProcedure name binds) with
    | none => []
    | some (left, _) => writtenTo slot binds left
  | .callFunction name returns binds =>
    match m.made? (.callFunction name returns binds) with
    | none => []
    | some (left, result) => (if returns = slot then [result] else []) ++ writtenTo slot binds left
  | _ => []

/-- What is stored in the slot in the course of a trace, in order. Nothing is stored by a request
that is refused. -/
def storedIn (slot : Nat) (t : Trace Memory Nat Value Cursor) : List Stored :=
  t.flatMap fun e => if e.isRefused then [] else e.before.stores slot e.request

section Request

variable {m : Memory} {slot : Nat} {content : Stored} (h : m.slots.lookup slot = some content)

include h

theorem lookup_store (p : Nat) (new : Stored) :
    ((store p new).run.run m).2.slots.lookup slot =
      some ((if p = slot then [new] else []).foldl Stored.store content) := by
  rw [run_store]
  by_cases hp : p = slot
  · subst hp
    rw [h]
    dsimp only
    rw [Entries.lookup_exchange, h, if_pos rfl]
    simp
  · rw [if_neg hp, List.foldl_nil]
    cases m.slots.lookup p with
    | none => exact h
    | some old =>
      dsimp only
      rw [Entries.lookup_exchange, h, Option.map_some, if_neg (Ne.symm hp)]

theorem lookup_writeBack {binds : List (Bind Nat)}
    (hbinds : ∀ p ∈ binds.filterMap (·.placeholder?), p ∈ m.numbers) (left : List Stored) :
    ((writeBack binds left).run.run m).2.slots.lookup slot =
      some ((writtenTo slot binds left).foldl Stored.store content) := by
  induction binds generalizing m content left with
  | nil => exact h
  | cons bind binds ih =>
    cases left with
    | nil => cases bind <;> exact h
    | cons stored left =>
      cases bind with
      | value v => exact ih h hbinds left
      | placeholder p =>
        obtain ⟨hp, hbinds⟩ := List.forall_mem_cons.mp hbinds
        obtain ⟨now, hstore, hnumbers⟩ := run_store_of_mem hp stored
        have hnow := lookup_store h p stored
        rw [hstore] at hnow
        have hrest := ih hnow (fun q hq => hnumbers ▸ hbinds q hq) left
        have hrun : (writeBack (.placeholder p :: binds) (stored :: left)).run.run m =
            (writeBack binds left).run.run now := Session.run_bind_of_ok hstore
        rw [hrun, hrest, ← List.foldl_append]
        congr 2
        rw [writtenTo, writtenTo, List.zip_cons_cons, List.filter_cons]
        by_cases hslot : p = slot <;> simp [hslot]

theorem lookup_callProcedure (name : String) (binds : List (Bind Nat)) :
    ((callProcedure name binds).run.run m).2.slots.lookup slot =
      some ((m.stores slot (.callProcedure name binds)).foldl Stored.store content) := by
  rw [stores, made?]
  cases hruns : m.runs? (.callProcedure name binds) with
  | none =>
    obtain ⟨e, he⟩ := run_callProcedure_of_none hruns
    rw [he]
    exact h
  | some run =>
    obtain ⟨body, arguments⟩ := run
    rw [run_callProcedure hruns]
    dsimp only
    cases body arguments with
    | error e => exact h
    | ok made =>
      have hnow : { m with calls := m.calls ++ [name] }.slots.lookup slot = some content := h
      exact lookup_writeBack hnow (mem_numbers_of_runs?_callProcedure hruns) made.1.val

/-- If there is a slot for the result, that is stored first, and then what is left in the
arguments. -/
theorem lookup_callFunction (name : String) {returns : Nat} (binds : List (Bind Nat))
    (hreturns : returns ∈ m.numbers) :
    ((callFunction name returns binds).run.run m).2.slots.lookup slot =
      some ((m.stores slot (.callFunction name returns binds)).foldl Stored.store content) := by
  rw [stores, made?]
  cases hruns : m.runs? (.callFunction name returns binds) with
  | none =>
    obtain ⟨e, he⟩ := run_callFunction_of_none hruns
    rw [he]
    exact h
  | some run =>
    obtain ⟨body, arguments⟩ := run
    rw [run_callFunction hruns]
    dsimp only
    cases body arguments with
    | error e => exact h
    | ok made =>
      have hthere : returns ∈ { m with calls := m.calls ++ [name] }.numbers := hreturns
      have hnow : { m with calls := m.calls ++ [name] }.slots.lookup slot = some content := h
      obtain ⟨stored, hstore, hnumbers⟩ := run_store_of_mem hthere made.2
      have hresult := lookup_store hnow returns made.2
      rw [hstore] at hresult
      have hmem := mem_numbers_of_runs?_callFunction hruns
      dsimp only
      rw [Session.run_bind_of_ok hstore, List.foldl_append]
      exact lookup_writeBack hresult (fun p hp => hnumbers ▸ hmem p hp) made.1.val

/-- **What one request does to a slot**: what it stores there is stored. -/
theorem lookup_answer {r : Request Nat Value}
    (hfreed : Event.freed? ⟨m, r, (driver.answer r m).1⟩ ≠ some slot) :
    (driver.answer r m).2.slots.lookup slot =
      some ((storedIn slot [⟨m, r, (driver.answer r m).1⟩]).foldl Stored.store content) := by
  cases hanswer : (driver.answer r m).1 with
  | error e =>
    rw [refused_eq_noted hanswer]
    exact h
  | ok reply =>
    have hstored : storedIn slot [⟨m, r, .ok reply⟩] = m.stores slot r := List.append_nil _
    rw [hstored]
    cases r with
    | materialize v => exact h
    | read p =>
      have hrun : driver.answer (.read p) m = (read p).run.run m := rfl
      rw [hrun, run_read]
      split <;> exact h
    | seed p v => exact lookup_store h p (.value v)
    | allocate token family =>
      have hslots : (driver.answer (.allocate token family) m).2.slots =
          m.slots ++ [(m.nextSlot, .emptyFor family)] := rfl
      rw [hslots, List.lookup_append, h]
      rfl
    | release p =>
      have hother : slot ≠ p := by
        rintro rfl
        rw [hanswer] at hfreed
        exact hfreed rfl
      have hrun : driver.answer (.release p) m = (release p).run.run m := rfl
      rw [hrun, run_release]
      cases m.slots.lookup p with
      | none => exact h
      | some old =>
        refine (Entries.lookup_filter (· ≠ p) slot m.slots).trans ?_
        rw [if_pos (decide_eq_true hother), h]
        rfl
    | callProcedure name binds =>
      rw [answer_callProcedure rfl]
      exact lookup_callProcedure h name binds
    | callFunction name returns binds =>
      rcases run_callFunction_cases m name returns binds with
        ⟨-, e, hrun⟩ | ⟨-, hreturns, after, hrun⟩ | ⟨-, -, hrun⟩
      · rw [answer_callFunction hrun] at hanswer
        cases hanswer
      · rw [answer_callFunction rfl]
        exact lookup_callFunction h name binds hreturns
      · rw [answer_callFunction hrun] at hanswer
        cases hanswer

end Request

/-! ## Whole runs -/

/-- **The runs of a session in memory**, with the requests that are answered in them. Routines can
be registered at any time. -/
inductive Run : Trace Memory Nat Value Cursor → Memory → Prop
  | empty : Run [] empty
  | register {t : Trace Memory Nat Value Cursor} {m : Memory} (name : String) (routine : Routine) :
      Run t m → Run t (m.register name routine)
  | answer {t : Trace Memory Nat Value Cursor} {m : Memory} (r : Request Nat Value) :
      Run t m → Run (t ++ [⟨m, r, (driver.answer r m).1⟩]) (driver.answer r m).2

namespace Run

variable {t u : Trace Memory Nat Value Cursor} {m after : Memory}

/-- Requests can be answered one after the other. -/
theorem steps (h : Run t m) (hsteps : driver.Steps m u after) : Run (t ++ u) after := by
  induction hsteps with
  | nil =>
    rw [List.append_nil]
    exact h
  | ask _ r ih =>
    rw [← List.append_assoc]
    exact .answer r ih

/-- A history is a run, executions included. -/
theorem of_history (ops : List Operation) :
    Run (History.of ops).whole (History.of ops).memory := by
  induction ops using List.reverseRecOn with
  | nil => exact .empty
  | append_singleton ops op ih =>
    rw [History.of, List.foldl_concat, ← History.of]
    cases op with
    | register name routine => exact .register name routine ih
    | request r => exact .answer r ih
    | execute model inputs => exact ih.steps (steps_trace driver_keepsBinds model inputs _).1

theorem reachable (h : Run t m) : Reachable m := by
  induction h with
  | empty => exact .empty
  | register name routine _ ih => exact .register name routine ih
  | answer r _ ih => exact .answer r ih

/-- **What a slot holds** is what was stored in it since it was allocated, until it is given
back. -/
theorem lookup_eq (h : Run t m) {before rest : Trace Memory Nat Value Cursor} {m₀ : Memory}
    {token : String} {family : Family} {slot : Nat}
    (ht : t = before ++ ⟨m₀, .allocate token family, .ok slot⟩ :: rest)
    (hfreed : slot ∉ freed rest) :
    m.slots.lookup slot = some ((storedIn slot rest).foldl Stored.store (.emptyFor family)) := by
  induction h generalizing rest with
  | empty => simp at ht
  | register name routine _ ih => exact ih ht hfreed
  | @answer t m r hrun ih =>
    rcases List.eq_nil_or_concat rest with rfl | ⟨rest, last, rfl⟩
    · -- the slot was allocated just now
      obtain ⟨rfl, hlast⟩ := List.append_inj' ht rfl
      obtain ⟨rfl, rfl, hanswer⟩ := Event.mk.inj (List.cons.inj hlast).1
      obtain rfl : m.nextSlot = slot := Except.ok.inj (eq_of_heq hanswer)
      have hnew : m.slots.lookup m.nextSlot = none := by
        refine lookup_eq_none_iff.mpr fun hmem => ?_
        obtain ⟨entry, hentry, heq⟩ := List.mem_map.mp hmem
        exact absurd heq (hrun.reachable.wellNumbered entry hentry).ne
      have hslots : (driver.answer (.allocate token family) m).2.slots =
          m.slots ++ [(m.nextSlot, .emptyFor family)] := rfl
      rw [hslots, List.lookup_append, hnew, List.lookup_cons_self]
      rfl
    · rw [List.concat_eq_append, ← List.cons_append, ← List.append_assoc] at ht
      obtain ⟨rfl, hlast⟩ := List.append_inj' ht rfl
      obtain rfl := (List.cons.inj hlast).1
      rw [List.concat_eq_append, freed_append, List.mem_append, not_or] at hfreed
      have hbefore := ih rfl hfreed.1
      have hkept : Event.freed? ⟨m, r, (driver.answer r m).1⟩ ≠ some slot :=
        fun hsome => hfreed.2 (List.mem_filterMap.mpr ⟨_, List.mem_cons_self, hsome⟩)
      rw [lookup_answer hbefore hkept, ← List.foldl_append, List.concat_eq_append,
        storedIn, storedIn, storedIn, List.flatMap_append]

end Run

/-! ## Main statement -/

/-- **Large objects come back as large objects**, as long as no rows take their place. In any
session, let a slot be allocated for a large object, and not be given back since. If nothing was
stored in it, it is read as a locator of null. If the last that was stored in it is a value or the
content of a large object, it is read as a locator of that, whatever was stored before; only if rows
were stored in it, and nothing but plain values since, it is read as a plain value. Rows are read as
a result set. The content behind a locator is the locator. -/
theorem read_largeObject_slot (ops : List Operation)
    {before after : Trace Memory Nat Value Cursor} {m₀ : Memory} {token : String} {slot : Nat}
    (hwhole : (History.of ops).whole =
      before ++ ⟨m₀, .allocate token .largeObject, .ok slot⟩ :: after)
    (hkept : slot ∉ freed after) :
    let stored := storedIn slot after
    let found := (driver.answer (.read slot) (History.of ops).memory).1
    (stored = [] → found = .ok (.locator .null)) ∧
      (∀ last v, stored.getLast? = some last → last.value? = some v →
        (¬ Stored.Lapsed stored → found = .ok (.locator v)) ∧
          (Stored.Lapsed stored → last = .value v ∧ found = .ok (.value v))) ∧
      (∀ content, stored.getLast? = some (.rows content) → found = .ok (.cursor ⟨content⟩)) ∧
      ∀ v m, driver.answer (.materialize v) m = (.ok v, m) := by
  intro stored found
  have hlookup := (Run.of_history ops).lookup_eq hwhole hkept
  have hfound : found = .ok (stored.foldl Stored.store (.emptyFor .largeObject)).fetched := by
    have hrun : found = ((read slot).run.run (History.of ops).memory).1 := rfl
    rw [hrun, run_read, hlookup]
  rw [hfound]
  refine ⟨fun hnil => ?_, fun last v hlast hv => ?_, fun content hlast => ?_, fun v m => rfl⟩
  · rw [hnil]
    rfl
  · obtain ⟨hlob, hvalue⟩ := Stored.foldl_store_value hlast hv
    constructor
    · intro hnot
      rw [hlob hnot]
      rfl
    · intro hlapsed
      obtain ⟨hlast, hheld⟩ := hvalue hlapsed
      rw [hheld]
      exact ⟨hlast, rfl⟩
  · obtain ⟨front, hfront⟩ := List.getLast?_eq_some_iff.mp hlast
    rw [hfront, List.foldl_concat, Stored.store_of_not_isPlain _ rfl]
    rfl

/-- A slot for a large object is used for the result of a function that gives rows, and then for
that of one that gives a text: it is read as a plain value. -/
theorem read_largeObject_slot_after_rows :
    let rows : Body := fun arguments => .ok (⟨arguments, rfl⟩, .rows [])
    let text : Body := fun arguments => .ok (⟨arguments, rfl⟩, .value (.text "2"))
    let ops : List Operation := [.register "G" (.function rows), .register "H" (.function text),
      .request (.allocate "CLOB" .largeObject), .request (.callFunction "G" 0 []),
      .request (.callFunction "H" 0 [])]
    let stored := storedIn 0 (History.of ops).whole.tail
    stored = [.rows [], .value (.text "2")] ∧ Stored.Lapsed stored ∧
      (driver.answer (.read 0) (History.of ops).memory).1 = .ok (.value (.text "2")) := by
  intro rows text ops stored
  have hstored : stored = [.rows [], .value (.text "2")] := by decide +kernel
  have hlapsed : Stored.Lapsed stored :=
    ⟨[], [], [.value (.text "2")], hstored, by simp [Stored.isPlain]⟩
  have hwhole : (History.of ops).whole = [] ++
      ⟨(History.of (ops.take 2)).memory, .allocate "CLOB" .largeObject, .ok 0⟩ ::
        (History.of ops).whole.tail := rfl
  have hkept : 0 ∉ freed (History.of ops).whole.tail := by decide +kernel
  have hlast : stored.getLast? = some (.value (.text "2")) := by rw [hstored]; rfl
  exact ⟨hstored, hlapsed,
    (((read_largeObject_slot ops hwhole hkept).2.1 _ _ hlast rfl).2 hlapsed).2⟩

end Memory

end StoredRoutine
