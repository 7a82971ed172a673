import StoredRoutine.Driver.Memory
import StoredRoutine.Execution

/-!
# Slots of a session in memory

A session in memory numbers its slots upwards and never again hands out a number it has handed
out. `Reachable` are the states that a session can be in, and what matters of them is
`WellNumbered`: no slot in use has a number that is still to come.

A call works on slots of its own. `extend m contents` is the session `m` with further slots, one
for each XX
-/

namespace StoredRoutine

/-- What is found in a slot that holds it. -/
def Stored.fetched : Stored → Fetched Value Memory.Cursor
  | .value v => .value v
  | .lob v => .locator v
  | .rows content => .cursor ⟨content⟩

namespace Memory

/-! ## Operations on a slot -/

section Run

variable (slot : Nat) (m : Memory)

theorem run_fetch : (fetch slot).run.run m =
    match m.slots.lookup slot with
    | some stored => (.ok stored, m)
    | none => (.error (invalidSlot slot), m) := by
  have hrun : (fetch slot).run.run m = (match m.slots.lookup slot with
    | some stored => (return stored : Session Memory Stored)
    | none => throw (invalidSlot slot)).run.run m := rfl
  rw [hrun]
  split <;> rfl

theorem run_store (new : Stored) : (store slot new).run.run m =
    match m.slots.lookup slot with
    | some old => (.ok (), { m with
        slots := m.slots.map fun (k, s) => if k = slot then (k, old.store new) else (k, s) })
    | none => (.error (invalidSlot slot), m) := by
  unfold store
  cases h : m.slots.lookup slot with
  | none => exact Session.run_bind_of_error (by rw [run_fetch, h])
  | some old => exact Session.run_bind_of_ok (by rw [run_fetch, h])

theorem run_release : (release slot).run.run m =
    match m.slots.lookup slot with
    | some _ => (.ok (), { m with slots := m.slots.filter fun (k, _) => k ≠ slot })
    | none => (.error (invalidSlot slot), m) := by
  unfold release
  cases h : m.slots.lookup slot with
  | none => exact Session.run_bind_of_error (by rw [run_fetch, h])
  | some old => exact Session.run_bind_of_ok (by rw [run_fetch, h])

theorem run_read : (read slot).run.run m =
    match m.slots.lookup slot with
    | some stored => (.ok stored.fetched, m)
    | none => (.error (invalidSlot slot), m) := by
  unfold read
  cases h : m.slots.lookup slot with
  | none => exact Session.run_bind_of_error (by rw [run_fetch, h])
  | some stored =>
    rw [Session.run_bind_of_ok (by rw [run_fetch, h])]
    cases stored <;> rfl

theorem run_routine (name : String) : (routine name).run.run m =
    match m.routines.lookup (key name) with
    | some r => (.ok r, m)
    | none => (.error (.ofCause
        (.driver ("identifier '" ++ name ++ "' must be declared"))), m) := by
  have hrun : (routine name).run.run m = (match m.routines.lookup (key name) with
    | some r => (return r : Session Memory Routine)
    | none => throw (Error.ofCause
        (.driver ("identifier '" ++ name ++ "' must be declared")))).run.run m := rfl
  rw [hrun]
  split <;> rfl

end Run

/-! ## Reachable states -/

/-- The states that a session can come to: at first it has no routines and no slots, routines can
be added at any time, and every request is answered. -/
inductive Reachable : Memory → Prop
  | empty : Reachable empty
  | register {m : Memory} (name : String) (routine : Routine) :
      Reachable m → Reachable (m.register name routine)
  | answer {m : Memory} (r : Request Nat Value) : Reachable m → Reachable (driver.answer r m).2

/-- The numbers of the slots in use have all been handed out. -/
def WellNumbered (m : Memory) : Prop := ∀ entry ∈ m.slots, entry.1 < m.nextSlot

/-- The computation keeps slots well numbered, whether it succeeds or not. -/
def KeepsNumbers {α : Type} (x : Session Memory α) : Prop :=
  ∀ m, WellNumbered m → WellNumbered (x.run.run m).2

namespace KeepsNumbers

variable {α β : Type}

theorem pure (a : α) : KeepsNumbers (Pure.pure a) := fun _ hm => hm

theorem bind {x : Session Memory α} {f : α → Session Memory β} (hx : KeepsNumbers x)
    (hf : ∀ a, KeepsNumbers (f a)) : KeepsNumbers (x >>= f) := by
  intro m hm
  have hafter := hx m hm
  rcases hrun : x.run.run m with ⟨e | a, after⟩ <;> rw [hrun] at hafter
  · rw [Session.run_bind_of_error hrun]
    exact hafter
  · rw [Session.run_bind_of_ok hrun]
    exact hf a after hafter

theorem ofExcept (result : Except Error α) : KeepsNumbers (Session.ofExcept result) :=
  fun _ hm => hm

theorem allocate (family : Family) : KeepsNumbers (allocate family) := by
  intro m hm entry hentry
  rcases List.mem_append.mp hentry with hold | hnew
  · exact Nat.lt_succ_of_lt (hm entry hold)
  · rw [List.mem_singleton.mp hnew]
    exact Nat.lt_succ_self _

theorem fetch (slot : Nat) : KeepsNumbers (fetch slot) := by
  intro m hm
  rw [run_fetch]
  split <;> exact hm

theorem store (slot : Nat) (new : Stored) : KeepsNumbers (store slot new) := by
  intro m hm
  rw [run_store]
  split
  · intro entry hentry
    obtain ⟨old, hold, rfl⟩ := List.mem_map.mp hentry
    have hkey := hm old hold
    dsimp only
    split <;> exact hkey
  · exact hm

theorem read (slot : Nat) : KeepsNumbers (read slot) := by
  intro m hm
  rw [run_read]
  split <;> exact hm

theorem release (slot : Nat) : KeepsNumbers (release slot) := by
  intro m hm
  rw [run_release]
  split
  · exact fun entry hentry => hm entry (List.mem_filter.mp hentry).1
  · exact hm

theorem routine (name : String) : KeepsNumbers (routine name) := by
  intro m hm
  rw [run_routine]
  split <;> exact hm

theorem record (name : String) : KeepsNumbers (record name) := fun _ hm => hm

theorem argument (bind : Bind Nat) : KeepsNumbers (argument bind) := by
  cases bind with
  | value v => exact pure _
  | placeholder slot => exact fetch slot

theorem arguments (binds : List (Bind Nat)) : KeepsNumbers (binds.mapM Memory.argument) := by
  induction binds with
  | nil => exact pure _
  | cons b binds ih =>
    rw [List.mapM_cons]
    exact bind (argument b) fun _ => bind ih fun _ => pure _

theorem writeBack (binds : List (Bind Nat)) (left : List Stored) :
    KeepsNumbers (writeBack binds left) := by
  induction binds generalizing left with
  | nil => exact pure _
  | cons b binds ih =>
    cases left with
    | nil => cases b <;> exact pure _
    | cons stored left =>
      cases b with
      | value v => exact ih left
      | placeholder slot => exact bind (store slot stored) fun _ => ih left

theorem callProcedure (name : String) (binds : List (Bind Nat)) :
    KeepsNumbers (callProcedure name binds) := by
  refine bind (arguments binds) fun contents => bind (routine name) fun r => ?_
  cases r with
  | function body => exact ofExcept (.error _)
  | procedure body =>
    exact bind (ofExcept _) fun left => bind (record name) fun _ => writeBack binds left.1

theorem callFunction (name : String) (returns : Nat) (binds : List (Bind Nat)) :
    KeepsNumbers (callFunction name returns binds) := by
  refine bind (arguments binds) fun contents => bind (routine name) fun r => ?_
  cases r with
  | procedure body => exact ofExcept (.error _)
  | function body =>
    exact bind (ofExcept _) fun left => bind (record name) fun _ =>
      bind (store returns left.2) fun _ => writeBack binds left.1

/-- Every request keeps slots well numbered. -/
theorem ask (r : Request Nat Value) : KeepsNumbers (driver.ask r) := by
  cases r with
  | allocate token family => exact allocate family
  | seed slot v => exact store slot (.value v)
  | callProcedure name binds => exact bind (callProcedure name binds) fun _ => pure _
  | callFunction name returns binds =>
    exact bind (callFunction name returns binds) fun _ => pure _
  | read slot => exact read slot
  | materialize v => exact pure v
  | release slot => exact release slot

end KeepsNumbers

/-- The numbers of reachable states are in order. -/
theorem Reachable.wellNumbered {m : Memory} (h : Reachable m) : WellNumbered m := by
  induction h with
  | empty => simp [WellNumbered, Memory.empty]
  | register name routine _ ih => exact ih
  | answer r _ ih => exact KeepsNumbers.ask r _ ih

/-! ## Further slots -/

/-- Slots for the contents, numbered from `n` on. -/
def numbered (n : Nat) : List Stored → List (Nat × Stored)
  | [] => []
  | c :: cs => (n, c) :: numbered (n + 1) cs

theorem numbered_append (n : Nat) (cs ds : List Stored) :
    numbered n (cs ++ ds) = numbered n cs ++ numbered (n + cs.length) ds := by
  induction cs generalizing n with
  | nil => rfl
  | cons c cs ih =>
    rw [List.cons_append, numbered, ih, numbered, List.cons_append, List.length_cons,
      Nat.add_right_comm, Nat.add_assoc]

theorem map_fst_numbered (n : Nat) (cs : List Stored) :
    (numbered n cs).map (·.1) = List.range' n cs.length := by
  induction cs generalizing n with
  | nil => rfl
  | cons c cs ih => rw [numbered, List.map_cons, ih, List.length_cons, List.range'_succ]

theorem mem_range'_of_mem_numbered {n : Nat} {cs : List Stored} {entry : Nat × Stored}
    (h : entry ∈ numbered n cs) : n ≤ entry.1 ∧ entry.1 < n + cs.length := by
  have hmem : entry.1 ∈ (numbered n cs).map (·.1) := List.mem_map_of_mem h
  rw [map_fst_numbered] at hmem
  exact List.mem_range'_1.mp hmem

/-- The session with further slots for the contents. -/
def extend (m : Memory) (contents : List Stored) : Memory :=
  { m with
    slots := m.slots ++ numbered m.nextSlot contents
    nextSlot := m.nextSlot + contents.length }

theorem extend_nil (m : Memory) : m.extend [] = m := by
  simp [extend, numbered]

/-- The slots around the one in the middle have other numbers. -/
theorem ne_of_mem_extend {m : Memory} (hm : WellNumbered m) (cs ds : List Stored)
    {entry : Nat × Stored}
    (h : entry ∈ m.slots ++ numbered m.nextSlot cs ∨
      entry ∈ numbered (m.nextSlot + cs.length + 1) ds) :
    entry.1 ≠ m.nextSlot + cs.length := by
  rw [List.mem_append] at h
  rcases h with (hold | hbefore) | hafter
  · have := hm entry hold
    omega
  · have := mem_range'_of_mem_numbered hbefore
    omega
  · have := mem_range'_of_mem_numbered hafter
    omega

theorem slots_extend (m : Memory) (cs : List Stored) (c : Stored) (ds : List Stored) :
    (m.extend (cs ++ c :: ds)).slots =
      (m.slots ++ numbered m.nextSlot cs) ++
        (m.nextSlot + cs.length, c) :: numbered (m.nextSlot + cs.length + 1) ds := by
  rw [extend, numbered_append, numbered, List.append_assoc]

theorem lookup_extend {m : Memory} (hm : WellNumbered m) (cs : List Stored) (c : Stored)
    (ds : List Stored) :
    (m.extend (cs ++ c :: ds)).slots.lookup (m.nextSlot + cs.length) = some c := by
  have hbefore : (m.slots ++ numbered m.nextSlot cs).lookup (m.nextSlot + cs.length) = none := by
    refine List.lookup_eq_none_iff.mpr fun entry hentry => ?_
    rw [bne_iff_ne]
    exact (ne_of_mem_extend hm cs ds (.inl hentry)).symm
  rw [slots_extend, List.lookup_append, hbefore, List.lookup_cons_self]
  rfl

section Extend

variable {m : Memory} (hm : WellNumbered m) (cs ds : List Stored) (c : Stored)

theorem run_allocate_extend (family : Family) :
    (allocate family).run.run (m.extend cs) =
      (.ok (m.nextSlot + cs.length), m.extend (cs ++ [.emptyFor family])) := by
  have hslots : (m.extend cs).slots ++ [((m.extend cs).nextSlot, Stored.emptyFor family)] =
      (m.extend (cs ++ [.emptyFor family])).slots := by
    rw [slots_extend]
    rfl
  have hnext : (m.extend cs).nextSlot + 1 = (m.extend (cs ++ [.emptyFor family])).nextSlot := by
    rw [extend, extend, List.length_append]
    rfl
  have hrun : (allocate family).run.run (m.extend cs) =
      (.ok (m.nextSlot + cs.length), { m.extend cs with
        slots := (m.extend cs).slots ++ [((m.extend cs).nextSlot, Stored.emptyFor family)]
        nextSlot := (m.extend cs).nextSlot + 1 }) := rfl
  rw [hrun, hslots, hnext]
  rfl

include hm

/-- **Non-interference.** Storing in one of the further slots leaves the others as they are. -/
theorem run_store_extend (new : Stored) :
    (store (m.nextSlot + cs.length) new).run.run (m.extend (cs ++ c :: ds)) =
      (.ok (), m.extend (cs ++ c.store new :: ds)) := by
  have hothers : ∀ entries : List (Nat × Stored),
      (∀ entry ∈ entries, entry.1 ≠ m.nextSlot + cs.length) →
        entries.map (fun (k, s) => if k = m.nextSlot + cs.length then (k, c.store new) else (k, s))
          = entries := by
    intro entries hne
    exact (List.map_congr_left fun entry h => if_neg (hne entry h)).trans (List.map_id entries)
  have hslots : (m.extend (cs ++ c :: ds)).slots.map
      (fun (k, s) => if k = m.nextSlot + cs.length then (k, c.store new) else (k, s)) =
        (m.extend (cs ++ c.store new :: ds)).slots := by
    rw [slots_extend, slots_extend, List.map_append, List.map_cons,
      hothers _ fun entry h => ne_of_mem_extend hm cs ds (.inl h),
      hothers _ fun entry h => ne_of_mem_extend hm cs ds (.inr h)]
    dsimp only
    rw [if_pos rfl]
  have hnext : (m.extend (cs ++ c :: ds)).nextSlot =
      (m.extend (cs ++ c.store new :: ds)).nextSlot := by
    simp [extend]
  rw [run_store, lookup_extend hm]
  dsimp only
  rw [hslots, hnext]
  rfl

end Extend

/-! ## Clean-up -/

/-- Slots that are in use can be released, each once. -/
theorem run_releaseAll {ps : List Nat} {m : Memory} (hps : ps.Nodup)
    (hmem : ∀ p ∈ ps, p ∈ m.slots.map (·.1)) :
    (driver.releaseAll ps).run.run m =
      (.ok (), { m with slots := m.slots.filter fun (k, _) => k ∉ ps }) := by
  induction ps generalizing m with
  | nil =>
    have hall : m.slots.filter (fun (k, _) => k ∉ ([] : List Nat)) = m.slots := by simp
    rw [hall]
    rfl
  | cons p ps ih =>
    obtain ⟨hp, hps⟩ := List.nodup_cons.mp hps
    obtain ⟨c, hc⟩ : ∃ c, m.slots.lookup p = some c := by
      obtain ⟨entry, hentry, rfl⟩ := List.mem_map.mp (hmem p List.mem_cons_self)
      refine Option.ne_none_iff_exists'.mp fun hnone => ?_
      simpa using List.lookup_eq_none_iff.mp hnone entry hentry
    have hrelease : (driver.ask (.release p)).run.run m =
        (.ok (), { m with slots := m.slots.filter fun (k, _) => k ≠ p }) := by
      have hrun : (driver.ask (.release p)).run.run m = (release p).run.run m := rfl
      rw [hrun, run_release, hc]
    have hothers : ∀ q ∈ ps, q ∈ (m.slots.filter fun (k, _) => k ≠ p).map (·.1) := by
      intro q hq
      obtain ⟨entry, hentry, rfl⟩ := List.mem_map.mp (hmem q (List.mem_cons_of_mem p hq))
      have hne : entry.1 ≠ p := fun heq => hp (heq ▸ hq)
      exact List.mem_map_of_mem (List.mem_filter.mpr ⟨hentry, by simpa using hne⟩)
    -- releasing one after the other takes away what releasing all at once does
    have hfilter : (m.slots.filter fun (k, _) => k ≠ p).filter (fun (k, _) => k ∉ ps) =
        m.slots.filter fun (k, _) => k ∉ p :: ps := by
      rw [List.filter_filter]
      refine List.filter_congr fun entry _ => ?_
      simp [Bool.and_comm]
    rw [Driver.releaseAll, Session.run_bind_of_ok hrelease, ih hps hothers, hfilter]

/-- **Nothing is left** of the further slots but their numbers, in whatever order they are
released. -/
theorem run_releaseAll_extend {m : Memory} (hm : WellNumbered m) (cs : List Stored) {ps : List Nat}
    (hps : ps.Perm (List.range' m.nextSlot cs.length)) :
    (driver.releaseAll ps).run.run (m.extend cs) =
      (.ok (), { m with nextSlot := m.nextSlot + cs.length }) := by
  have hmem : ∀ p ∈ ps, p ∈ (m.extend cs).slots.map (·.1) := by
    intro p hp
    rw [extend, List.map_append, map_fst_numbered]
    exact List.mem_append_right _ (hps.mem_iff.mp hp)
  -- the slots that were there before have smaller numbers
  have hold : m.slots.filter (fun (k, _) => k ∉ ps) = m.slots := by
    refine List.filter_eq_self.mpr fun entry hentry => ?_
    have hlt := hm entry hentry
    rw [decide_eq_true_iff, hps.mem_iff, List.mem_range'_1]
    omega
  have hnew : (numbered m.nextSlot cs).filter (fun (k, _) => k ∉ ps) = [] := by
    refine List.filter_eq_nil_iff.mpr fun entry hentry => ?_
    have hrange := mem_range'_of_mem_numbered hentry
    rw [decide_eq_true_iff, hps.mem_iff, List.mem_range'_1]
    omega
  have hslots : (m.extend cs).slots.filter (fun (k, _) => k ∉ ps) = m.slots := by
    rw [extend, List.filter_append, hold, hnew, List.append_nil]
  rw [run_releaseAll (hps.nodup_iff.mpr List.nodup_range') hmem, hslots]
  rfl

end Memory

end StoredRoutine
