import Mathlib.Data.Multiset.AddSub
import Mathlib.Algebra.Order.Group.Multiset
import StoredRoutine.Proofs.Session.Record

/-!
# Who has which placeholders

Ownership of placeholders is kept by counting. `Orderly a t b` says that an executor which has the
placeholders `a` in hand when the trace `t` begins has `b` in hand when it ends: what is allocated
comes in, what is asked to be released goes out, and every request mentions only what is in hand.
A trace in several parts is orderly if the parts are (`Orderly.append`), and what a part leaves
alone can be added on both sides (`Orderly.frame`), so every function of the executor has its own
small fact. They end in `records_call`: a call leaves in hand exactly the placeholders that it
hands over to be released.

Placeholders are counted with multiplicity. For a driver that never hands out the same one twice
this is ownership of each by itself; for any other driver it is the only sense in which two equal
placeholders can be told apart.

Requests are also sorted by the phase they belong to (`Request.phase`), since preparation makes no
other requests than its own unless it fails, and extraction never does.
-/

namespace StoredRoutine

variable {S P L C : Type}

/-! ## Requests and events -/

/-- The placeholders that a request mentions. -/
def Request.placeholders : Request P L → List P
  | .allocate .. | .materialize _ => []
  | .seed p _ | .read p | .release p => [p]
  | .callProcedure _ binds => binds.filterMap (·.placeholder?)
  | .callFunction _ returns binds => returns :: binds.filterMap (·.placeholder?)

/-- The phases of an execution. -/
inductive Phase where
  /-- Placeholders are allocated and seeded. -/
  | prepare
  /-- The routine is called. -/
  | invoke
  /-- What the placeholders hold is fetched. -/
  | extract
  /-- The placeholders are given back. -/
  | release
  deriving DecidableEq, Repr

/-- The phase that a request belongs to. -/
def Request.phase : Request P L → Phase
  | .allocate .. | .seed .. => .prepare
  | .callProcedure .. | .callFunction .. => .invoke
  | .read _ | .materialize _ => .extract
  | .release _ => .release

/-- Is it a placeholder that is given back? -/
def Request.isRelease (r : Request P L) : Bool := r.phase = .release

namespace Event

/-- The placeholder that was handed out. -/
def allocated? : Event S P L C → Option P
  | ⟨_, .allocate .., .ok p⟩ => some p
  | _ => none

/-- The placeholder that was to be given back. -/
def released? (e : Event S P L C) : Option P :=
  match e.request with
  | .release p => some p
  | _ => none

/-- Was the request refused? -/
def isRefused (e : Event S P L C) : Bool :=
  match e.answer with
  | .error _ => true
  | .ok _ => false

end Event

/-- The placeholders that are handed out in the course of a trace. -/
def allocated (t : Trace S P L C) : Multiset P := ↑(t.filterMap Event.allocated?)

/-- The placeholders for which there is a request to release them in a trace, granted or not. -/
def released (t : Trace S P L C) : Multiset P := ↑(t.filterMap Event.released?)

@[simp] theorem allocated_nil : allocated ([] : Trace S P L C) = 0 := rfl

@[simp] theorem released_nil : released ([] : Trace S P L C) = 0 := rfl

@[simp] theorem allocated_append (t u : Trace S P L C) :
    allocated (t ++ u) = allocated t + allocated u := by
  simp [allocated]

@[simp] theorem released_append (t u : Trace S P L C) :
    released (t ++ u) = released t + released u := by
  simp [released]

/-- The placeholders among the binds. -/
def heldBy (binds : List (Bind P)) : Multiset P := ↑(binds.filterMap (·.placeholder?))

theorem heldBy_append (binds others : List (Bind P)) :
    heldBy (binds ++ others) = heldBy binds + heldBy others := by
  simp [heldBy]

theorem heldBy_cons (bind : Bind P) (binds : List (Bind P)) :
    heldBy (bind :: binds) = heldBy [bind] + heldBy binds :=
  heldBy_append [bind] binds

/-- Every request of the trace belongs to the phase. -/
def InPhase (phase : Phase) (t : Trace S P L C) : Prop := ∀ e ∈ t, e.request.phase = phase

/-- There is no request to release anything. -/
def ReleaseFree (t : Trace S P L C) : Prop := ∀ e ∈ t, e.request.isRelease = false

/-- After a release there is nothing but releases. -/
def ReleasesLast (t : Trace S P L C) : Prop :=
  t.Pairwise fun e later => e.request.isRelease → later.request.isRelease

namespace InPhase

variable {phase : Phase} {t u : Trace S P L C}

theorem nil : InPhase phase ([] : Trace S P L C) := by simp [InPhase]

theorem single {e : Event S P L C} (h : e.request.phase = phase) : InPhase phase [e] := by
  intro f hf
  rw [List.mem_singleton.mp hf]
  exact h

theorem append (ht : InPhase phase t) (hu : InPhase phase u) : InPhase phase (t ++ u) := by
  intro e he
  rcases List.mem_append.mp he with h | h
  · exact ht e h
  · exact hu e h

theorem releaseFree (h : InPhase phase t) (hphase : phase ≠ .release) : ReleaseFree t := by
  intro e he
  simp only [Request.isRelease, h e he, hphase, decide_false]

end InPhase

theorem ReleaseFree.single {e : Event S P L C} (h : e.request.isRelease = false) :
    ReleaseFree [e] := by
  intro f hf
  rw [List.mem_singleton.mp hf]
  exact h

theorem ReleaseFree.append {t u : Trace S P L C} (ht : ReleaseFree t) (hu : ReleaseFree u) :
    ReleaseFree (t ++ u) := by
  intro e he
  rcases List.mem_append.mp he with h | h
  · exact ht e h
  · exact hu e h

theorem ReleaseFree.releasesLast {t : Trace S P L C} (h : ReleaseFree t) : ReleasesLast t := by
  induction t with
  | nil => exact .nil
  | cons e t ih =>
    refine .cons (fun later _ hrelease => ?_) (ih fun f hf => h f (List.mem_cons_of_mem _ hf))
    rw [h e List.mem_cons_self] at hrelease
    cases hrelease

theorem ReleaseFree.append_releasesLast {t u : Trace S P L C} (ht : ReleaseFree t)
    (hu : ReleasesLast u) : ReleasesLast (t ++ u) := by
  refine List.pairwise_append.mpr ⟨ht.releasesLast, hu, fun e he later _ hrelease => ?_⟩
  rw [ht e he] at hrelease
  cases hrelease

theorem InPhase.append_releasesLast {phase : Phase} {t u : Trace S P L C} (ht : InPhase phase t)
    (hphase : phase ≠ .release) (hu : ReleasesLast u) : ReleasesLast (t ++ u) :=
  (ht.releaseFree hphase).append_releasesLast hu

/-! ## Orderly traces -/

/-- An executor that has the placeholders `a` in hand when the trace begins has `b` in hand when it
ends, and mentions only what it has in hand. -/
structure Orderly (a : Multiset P) (t : Trace S P L C) (b : Multiset P) : Prop where
  balance : released t + b = a + allocated t
  mentions : ∀ before e after, t = before ++ e :: after →
    (e.request.placeholders : Multiset P) + released before ≤ a + allocated before

namespace Orderly

variable {a b c : Multiset P} {t u : Trace S P L C}

theorem nil (a : Multiset P) : Orderly a ([] : Trace S P L C) a where
  balance := by rw [released_nil, allocated_nil, zero_add, add_zero]
  mentions := by
    intro before e after h
    simp at h

theorem single {e : Event S P L C} (hbalance : released [e] + b = a + allocated [e])
    (hmentions : (e.request.placeholders : Multiset P) ≤ a) : Orderly a [e] b where
  balance := hbalance
  mentions := by
    intro before f after h
    obtain ⟨rfl, rfl, rfl⟩ : before = [] ∧ e = f ∧ after = [] := by
      cases before with
      | nil => simpa using h
      | cons g rest => simp at h
    rw [released_nil, allocated_nil, add_zero, add_zero]
    exact hmentions

/-- **Composition.** What the first part leaves in hand, the second part begins with. -/
theorem append (ht : Orderly a t b) (hu : Orderly b u c) : Orderly a (t ++ u) c where
  balance := by
    rw [released_append, allocated_append, add_assoc, hu.balance, ← add_assoc, ht.balance,
      add_assoc]
  mentions := by
    intro before e after h
    rcases List.append_eq_append_iff.mp h with ⟨mid, rfl, hmid⟩ | ⟨mid, rfl, hmid⟩
    · -- the request belongs to the second part
      have hle := hu.mentions mid e after hmid
      calc (e.request.placeholders : Multiset P) + released (t ++ mid)
          = released t + (e.request.placeholders + released mid) := by
            rw [released_append, add_left_comm]
        _ ≤ released t + (b + allocated mid) := add_le_add_right hle _
        _ = a + allocated (t ++ mid) := by
            rw [← add_assoc, ht.balance, allocated_append, add_assoc]
    · cases mid with
      | nil =>
        -- the request is the first of the second part
        have hle := hu.mentions [] e after (by simpa using hmid.symm)
        rw [released_nil, allocated_nil, add_zero, add_zero] at hle
        rw [List.append_nil] at ht
        calc (e.request.placeholders : Multiset P) + released before
            ≤ b + released before := add_le_add_left hle _
          _ = a + allocated before := by rw [add_comm, ht.balance]
      | cons f rest =>
        obtain ⟨rfl, -⟩ : e = f ∧ after = rest ++ u := by simpa using hmid
        exact ht.mentions before e rest rfl

/-- **Framing.** Placeholders that play no part can be in hand throughout. -/
theorem frame (h : Orderly a t b) (x : Multiset P) : Orderly (a + x) t (b + x) where
  balance := by rw [← add_assoc, h.balance, add_right_comm]
  mentions := by
    intro before e after heq
    calc (e.request.placeholders : Multiset P) + released before
        ≤ a + allocated before := h.mentions before e after heq
      _ ≤ a + allocated before + x := Multiset.le_add_right _ _
      _ = a + x + allocated before := add_right_comm _ _ _

/-- A request that neither brings a placeholder in nor gives one away. -/
theorem idle {e : Event S P L C} (hreleased : e.released? = none)
    (hallocated : e.allocated? = none) (h : (e.request.placeholders : Multiset P) ≤ a) :
    Orderly a [e] a := by
  refine .single ?_ h
  simp [released, allocated, hreleased, hallocated]

/-- An allocation that is granted brings its placeholder in. -/
theorem allocate (a : Multiset P) (s : S) (token : String) (family : Family) (p : P) :
    Orderly a [(⟨s, .allocate token family, .ok p⟩ : Event S P L C)] (a + {p}) := by
  refine .single ?_ (Multiset.zero_le a)
  simp [released, allocated, Event.released?, Event.allocated?]

/-- A release gives its placeholder away, whether it is granted or not. -/
theorem release (a : Multiset P) (s : S) (p : P) (answer : Except Error Unit) :
    Orderly ({p} + a) [(⟨s, .release p, answer⟩ : Event S P L C)] a := by
  refine .single ?_ (by simp [Request.placeholders])
  simp [released, allocated, Event.released?, Event.allocated?]

end Orderly

/-! ## Prepare -/

section Executor

variable (d : Driver S P L C) (s : S)

/-- What a prepared bind leaves in hand. An argument that cannot be prepared leaves nothing. -/
def Prepared (u : Trace S P L C) : Except Error (Bind P) → Prop
  | .ok bind => Orderly 0 u (heldBy [bind]) ∧ InPhase .prepare u
  | .error _ => Orderly 0 u 0 ∧ ReleasesLast u

/-- Seeding keeps the placeholder in hand if it succeeds, and gives it back if it does not. -/
def Seeded (p : P) (u : Trace S P L C) : Except Error Unit → Prop
  | .ok _ => Orderly {p} u {p} ∧ InPhase .prepare u
  | .error _ => Orderly {p} u 0 ∧ ReleasesLast u

theorem records_seed (p : P) (v : Value) :
    Records
      (tryCatch (d.recorded.ask (.seed p v)) fun e => do
        d.recorded.ask (.release p)
        throw e : Session (S × Trace S P L C) Unit).run
      (tryCatch (d.ask (.seed p v)) fun e => do
        d.ask (.release p)
        throw e : Session S Unit).run s (Seeded p) := by
  have hseed : ∀ (before : S) (answer : Except Error Unit),
      Orderly {p} [(⟨before, .seed p v, answer⟩ : Event S P L C)] {p} := fun before answer =>
    .idle rfl (by cases answer <;> rfl) (by simp [Request.placeholders])
  refine .attempt (.ask d _) ?_ ?_
  · rintro u a ⟨rfl, -⟩
    exact ⟨hseed _ _, .single rfl⟩
  · rintro u e after - ⟨rfl, -⟩
    have hlast : ∀ answer : Except Error Unit, ReleasesLast
        [(⟨s, .seed p v, .error e⟩ : Event S P L C), ⟨after, .release p, answer⟩] := fun answer =>
      InPhase.append_releasesLast (.single rfl) (by decide : Phase.prepare ≠ .release)
        (List.pairwise_singleton _ _)
    refine .bind_session (.ask d _) ?_ ?_
    · rintro v f ⟨rfl, -⟩
      exact ⟨(hseed _ _).append (.release 0 _ p _), hlast _⟩
    · rintro v _ later - ⟨rfl, -⟩
      exact .pure ⟨(hseed _ _).append (.release 0 _ p _), hlast _⟩

theorem records_prepare (b : Binding) (input : Value) :
    Records (d.recorded.prepare b input).run (d.prepare b input).run s Prepared := by
  -- both strategies with a placeholder begin with the same request
  have hrefused : ∀ e : Error, Prepared
      [(⟨s, .allocate b.token b.family, .error e⟩ : Event S P L C)] (.error e) := fun e =>
    ⟨.idle rfl rfl (Multiset.zero_le 0), List.pairwise_singleton _ _⟩
  unfold Driver.prepare
  cases b.strategy.prepare with
  | passValue => exact .pure ⟨.nil 0, .nil⟩
  | allocate =>
    refine .bind_session (.ask d _) ?_ ?_
    · rintro u e ⟨rfl, -⟩
      exact hrefused e
    · rintro u p after - ⟨rfl, -⟩
      exact .pure ⟨.allocate 0 _ _ _ p, .single rfl⟩
  | allocateAndSeed =>
    refine .bind_session (.ask d _) ?_ ?_
    · rintro u e ⟨rfl, -⟩
      exact hrefused e
    · rintro u p after - ⟨rfl, -⟩
      refine .bind_session (records_seed d after p input) ?_ ?_
      · rintro v e ⟨h, hlast⟩
        exact ⟨.append (.allocate 0 _ _ _ p) h,
          InPhase.append_releasesLast (.single rfl) (by decide : Phase.prepare ≠ .release) hlast⟩
      · rintro v - later - ⟨h, hphase⟩
        refine .pure ?_
        rw [List.append_nil]
        exact ⟨.append (.allocate 0 _ _ _ p) h, .append (.single rfl) hphase⟩

theorem records_prepareAll (bindings : List Binding) (inputs : List Value) :
    Records (d.recorded.prepareAll bindings inputs) (d.prepareAll bindings inputs) s fun u r =>
      Orderly 0 u (heldBy r.1) ∧ ReleasesLast u ∧ (r.2 = .ok () → InPhase .prepare u) := by
  induction bindings generalizing inputs s with
  | nil => exact .pure ⟨.nil 0, .nil, fun _ => .nil⟩
  | cons b rest ih =>
    simp only [Driver.prepareAll]
    generalize (if b.takesInput then (inputs.head?.getD .null, inputs.tail)
      else (.null, inputs)) = next
    obtain ⟨input, others⟩ := next
    refine (records_prepare d s b input).bind fun u r after hrun hr => ?_
    cases r with
    | error e =>
      refine .pure ?_
      rw [List.append_nil]
      exact ⟨hr.1, hr.2, by simp⟩
    | ok bind =>
      refine (ih after others).bind fun v r later hrest hr' => .pure ?_
      obtain ⟨binds, result⟩ := r
      obtain ⟨hbind, hphase⟩ := hr
      obtain ⟨hbinds, hlast, hphase'⟩ := hr'
      rw [List.append_nil, heldBy_cons]
      refine ⟨hbind.append ?_, hphase.append_releasesLast (by decide) hlast,
        fun h => hphase.append (hphase' h)⟩
      -- the bind that is there already plays no part in what follows
      have hframe := hbinds.frame (heldBy [bind])
      rwa [zero_add, add_comm] at hframe

/-! ## Invoke and extract -/

theorem records_extract (b : Binding) (p : P) :
    Records (d.recorded.extract b p).run (d.extract b p).run s fun u _ =>
      Orderly {p} u {p} ∧ InPhase .extract u := by
  have hread : ∀ answer : Except Error (Fetched L C),
      Orderly {p} [(⟨s, .read p, answer⟩ : Event S P L C)] {p} := fun answer =>
    .idle rfl (by cases answer <;> rfl) (by simp [Request.placeholders])
  unfold Driver.extract
  refine .bind_session (.ask d _) ?_ ?_
  · rintro u e ⟨rfl, -⟩
    exact ⟨hread _, .single rfl⟩
  · rintro u found after - ⟨rfl, -⟩
    split
    · exact .pure ⟨hread _, .single rfl⟩
    · exact .pure ⟨hread _, .single rfl⟩
    · next l _ =>
      have hcontent : ∀ answer : Except Error Value,
          Orderly {p} [(⟨after, .materialize l, answer⟩ : Event S P L C)] {p} := fun answer =>
        .idle rfl (by cases answer <;> rfl) (Multiset.zero_le _)
      refine .bind_session (.ask d _) ?_ ?_
      · rintro v e ⟨rfl, -⟩
        exact ⟨(hread _).append (hcontent _), .append (.single rfl) (.single rfl)⟩
      · rintro v content later - ⟨rfl, -⟩
        exact .pure ⟨(hread _).append (hcontent _), .append (.single rfl) (.single rfl)⟩
    · exact .pure ⟨hread _, .single rfl⟩
    · exact .pure ⟨hread _, .single rfl⟩

theorem records_extractAll (pairs : List (Binding × Bind P)) :
    Records (d.recorded.extractAll pairs).run (d.extractAll pairs).run s fun u _ =>
      Orderly (heldBy (pairs.map (·.2))) u (heldBy (pairs.map (·.2))) ∧ InPhase .extract u := by
  have hnone : ∀ a : Multiset P, Orderly a ([] : Trace S P L C) a ∧
      InPhase .extract ([] : Trace S P L C) := fun a => ⟨.nil a, .nil⟩
  induction pairs generalizing s with
  | nil => exact .pure (hnone _)
  | cons pair rest ih =>
    obtain ⟨b, bind⟩ := pair
    -- what the rest needs is part of what is in hand
    have hrest : ∀ u : Trace S P L C,
        Orderly (heldBy (rest.map (·.2))) u (heldBy (rest.map (·.2))) →
          Orderly (heldBy (bind :: rest.map (·.2))) u (heldBy (bind :: rest.map (·.2))) := by
      intro u h
      rw [heldBy_cons, add_comm]
      exact h.frame _
    simp only [Driver.extractAll, List.map_cons]
    split
    · exact (ih s).mono fun u _ h => ⟨hrest u h.1, h.2⟩
    · cases bind with
      | value v => exact .pure (hnone _)
      | placeholder p =>
        -- and so is what the first argument needs
        have hfirst : ∀ u : Trace S P L C, Orderly {p} u {p} →
            Orderly (heldBy (.placeholder p :: rest.map (·.2))) u
              (heldBy (.placeholder p :: rest.map (·.2))) := by
          intro u h
          rw [heldBy_cons]
          exact h.frame _
        refine .bind_session (records_extract d s b p) ?_ ?_
        · exact fun u e h => ⟨hfirst u h.1, h.2⟩
        · rintro u output after - ⟨hu, hphase⟩
          refine .bind_session (ih after) ?_ ?_
          · exact fun v e h => ⟨(hfirst u hu).append (hrest v h.1), hphase.append h.2⟩
          · rintro v outputs later - ⟨hv, hphase'⟩
            refine .pure ?_
            rw [List.append_nil]
            exact ⟨(hfirst u hu).append (hrest v hv), hphase.append hphase'⟩

theorem map_snd_zip_eq_take {A B : Type} (xs : List A) (ys : List B) :
    (xs.zip ys).map (·.2) = ys.take xs.length := by
  induction xs generalizing ys with
  | nil => simp
  | cons x xs ih => cases ys <;> simp [ih]

/-- Extraction needs nothing but the binds of the call, whatever the arguments are. -/
theorem records_extractAll_zip (bindings : List Binding) (binds : List (Bind P)) :
    Records (d.recorded.extractAll (bindings.zip binds)).run
      (d.extractAll (bindings.zip binds)).run s fun u _ =>
        Orderly (heldBy binds) u (heldBy binds) ∧ InPhase .extract u := by
  refine (records_extractAll d s _).mono fun u _ h => ⟨?_, h.2⟩
  -- binds that belong to no argument are in hand throughout
  have hsplit : heldBy binds = heldBy ((bindings.zip binds).map (·.2)) +
      heldBy (binds.drop bindings.length) := by
    rw [map_snd_zip_eq_take, ← heldBy_append, List.take_append_drop]
  rw [hsplit]
  exact h.1.frame _

/-- A function's value is extracted from its own placeholder, and then the arguments are from the
binds. -/
theorem records_extractReturned (bindings : List Binding) (binds : List (Bind P))
    (returned : Binding) (p : P) :
    Records
      (ExceptT.run do
        let value ← d.recorded.extract returned p
        return (⟨some value, ← d.recorded.extractAll (bindings.zip binds)⟩ : Outcome C))
      (ExceptT.run do
        let value ← d.extract returned p
        return (⟨some value, ← d.extractAll (bindings.zip binds)⟩ : Outcome C))
      s fun u _ => Orderly (heldBy binds + {p}) u (heldBy binds + {p}) ∧ InPhase .extract u := by
  have hvalue : ∀ u : Trace S P L C, Orderly {p} u {p} →
      Orderly (heldBy binds + {p}) u (heldBy binds + {p}) := by
    intro u h
    rw [add_comm]
    exact h.frame _
  refine .bind_session (records_extract d s returned p) ?_ ?_
  · exact fun u e h => ⟨hvalue u h.1, h.2⟩
  · rintro u value after - ⟨hu, hphase⟩
    refine .bind_session (records_extractAll_zip d after bindings binds) ?_ ?_
    · exact fun v e h => ⟨(hvalue u hu).append (h.1.frame _), hphase.append h.2⟩
    · rintro v outputs later - ⟨hv, hphase'⟩
      refine .pure ?_
      rw [List.append_nil]
      exact ⟨(hvalue u hu).append (hv.frame _), hphase.append hphase'⟩

end Executor

/-- The calls of the driver leave the binds in place: whatever they do to the contents of the
placeholders, each position is bound to what it was bound to before. -/
structure Driver.KeepsBinds (d : Driver S P L C) : Prop where
  procedure : ∀ name binds s left,
    (d.answer (.callProcedure name binds) s).1 = .ok left → left.val = binds
  function : ∀ name returns binds s left,
    (d.answer (.callFunction name returns binds) s).1 = .ok left → left.val = binds

section Call

variable {d : Driver S P L C} (hd : d.KeepsBinds) (s : S) (m : CallModel)

include hd

theorem records_invoke (binds : List (Bind P)) :
    Records (d.recorded.invoke m binds) (d.invoke m binds) s fun u r =>
      Orderly (heldBy binds) u ↑r.2 ∧ ReleaseFree u := by
  unfold Driver.invoke
  cases m.returnValue with
  | none =>
    have hcall : ∀ answer : Except Error ((Request.callProcedure (L := L) m.name binds).Reply C),
        Orderly (heldBy binds) [(⟨s, .callProcedure m.name binds, answer⟩ : Event S P L C)]
          (heldBy binds) := fun answer =>
      .idle rfl (by cases answer <;> rfl) le_rfl
    refine (Records.ask d _).bind fun u a after _ h => ?_
    obtain ⟨rfl, ha⟩ := h
    cases a with
    | error e => exact .pure ⟨hcall _, .single rfl⟩
    | ok reply =>
      obtain ⟨left, hlength⟩ := reply
      -- what is extracted from are the binds of the call
      obtain rfl : left = binds := hd.procedure _ _ _ _ ha.symm
      refine (records_extractAll_zip d after m.arguments left).bind fun v outputs later _ h => ?_
      refine .pure ?_
      rw [List.append_nil]
      exact ⟨(hcall _).append h.1, .append (.single rfl) (h.2.releaseFree (by decide))⟩
  | some returned =>
    refine (Records.ask d _).bind fun u a after _ h => ?_
    obtain ⟨rfl, ha⟩ := h
    cases a with
    | error e => exact .pure ⟨.idle rfl rfl (Multiset.zero_le _), .single rfl⟩
    | ok p =>
      -- the value has a placeholder of its own, next to those of the arguments
      have hboth : heldBy binds + {p} = ↑(p :: binds.filterMap (·.placeholder?)) := by
        rw [add_comm]
        rfl
      have hcall : ∀ answer : Except Error ((Request.callFunction (L := L) m.name p binds).Reply C),
          Orderly (heldBy binds + {p})
            [(⟨after, .callFunction m.name p binds, answer⟩ : Event S P L C)]
            (heldBy binds + {p}) := fun answer =>
        .idle rfl (by cases answer <;> rfl) hboth.ge
      refine (Records.ask d _).bind fun v a later _ h => ?_
      obtain ⟨rfl, ha'⟩ := h
      cases a with
      | error e =>
        refine .pure ?_
        rw [← hboth, List.append_nil]
        exact ⟨.append (.allocate _ _ _ _ p) (hcall _), .append (.single rfl) (.single rfl)⟩
      | ok reply =>
        obtain ⟨left, hlength⟩ := reply
        obtain rfl : left = binds := hd.function _ _ _ _ _ ha'.symm
        refine (records_extractReturned d later m.arguments left returned p).bind
          fun w outcome last _ h => .pure ?_
        rw [← hboth, List.append_nil]
        exact ⟨.append (.allocate _ _ _ _ p) ((hcall _).append h.1),
          .append (.single rfl) (.append (.single rfl) (h.2.releaseFree (by decide)))⟩

theorem records_call (inputs : List Value) :
    Records (d.recorded.call m inputs) (d.call m inputs) s fun u r =>
      Orderly 0 u ↑r.2 ∧ ReleasesLast u := by
  unfold Driver.call
  refine (records_prepareAll d s m.arguments inputs).bind fun u r after _ h => ?_
  obtain ⟨binds, prepared⟩ := r
  obtain ⟨hprepare, hlast, hphase⟩ := h
  cases prepared with
  | error e =>
    refine .pure ?_
    rw [List.append_nil]
    exact ⟨hprepare, hlast⟩
  | ok _ =>
    refine (records_invoke hd after m binds).mono fun v r h => ?_
    exact ⟨hprepare.append h.1, (hphase rfl).append_releasesLast (by decide) h.2.releasesLast⟩

end Call

end StoredRoutine
