import StoredRoutine.Error
import StoredRoutine.Value

/-!
# Drivers

A driver is a session with a database that can call stored routines. It is driven by `Request`s:
placeholders are allocated and seeded, a routine is called with values and placeholders bound to
its arguments, and what the placeholders hold is read and at last released.

Any request may be refused with an error, after which the session goes on. A `Driver` is
therefore one function that answers every request, with an error or with a reply of the type
that belongs to the request, and says what becomes of the session.
-/

namespace StoredRoutine

/-! ## Requests and replies -/

/-- What is bound to an argument: a plain value, or a placeholder of the driver. -/
inductive Bind (P : Type) where
  | value (v : Value)
  | placeholder (p : P)
  deriving DecidableEq, Repr

/-- The placeholder, if one is bound. -/
def Bind.placeholder? {P : Type} : Bind P → Option P
  | .placeholder p => some p
  | .value _ => none

@[simp] theorem Bind.placeholder?_placeholder {P : Type} (p : P) :
    (Bind.placeholder p).placeholder? = some p := rfl

@[simp] theorem Bind.placeholder?_value {P : Type} (v : Value) :
    (Bind.value v : Bind P).placeholder? = none := rfl

/-- What is found in a placeholder after a call. -/
inductive Fetched (L C : Type) where
  /-- a value that can be used as it is -/
  | value (v : Value)
  /-- a locator of a large object, whose content has to be read in turn -/
  | locator (l : L)
  /-- an open result set -/
  | cursor (c : C)
  deriving Repr

/-- The name in messages of what was found. -/
def Fetched.kindName {L C : Type} : Fetched L C → String
  | .value v => v.kindName
  | .locator _ => "locator"
  | .cursor _ => "cursor"

/-- What a driver can be asked for, where `P` are its placeholders and `L` its locators. A driver
cannot exchange the placeholder that it seeds, nor the one that the value of a function goes into:
what it can exchange are the binds of a call. -/
inductive Request (P L : Type) where
  /-- an empty placeholder, for a type of the family -/
  | allocate (token : String) (family : Family)
  /-- that the placeholder hold a value -/
  | seed (p : P) (v : Value)
  /-- a call of a procedure -/
  | callProcedure (name : String) (binds : List (Bind P))
  /-- a call of a function, whose value goes into a placeholder -/
  | callFunction (name : String) (returns : P) (binds : List (Bind P))
  /-- what the placeholder holds -/
  | read (p : P)
  /-- the content behind a locator -/
  | materialize (l : L)
  /-- that the placeholder be freed; a cursor read from it stays open -/
  | release (p : P)
  deriving DecidableEq, Repr

/-- The reply to a request that is granted. A call replies with the binds as it leaves them: one
for each position, though not always the one that was passed. -/
abbrev Request.Reply {P L : Type} (C : Type) : Request P L → Type
  | .allocate .. => P
  | .seed .. | .release _ => Unit
  | .callProcedure _ binds | .callFunction _ _ binds =>
    { left : List (Bind P) // left.length = binds.length }
  | .read _ => Fetched L C
  | .materialize _ => Value

/-- A driver with states `S`, placeholders `P`, locators `L` and cursors `C`. -/
structure Driver (S P L C : Type) where
  /-- the answer to a request, and the state after it -/
  answer : (r : Request P L) → S → Except Error (r.Reply C) × S

/-- A computation on a session, which can fail and goes on from the state it leaves even then. -/
abbrev Session (S α : Type) := ExceptT Error (StateM S) α

namespace Session

variable {S α β : Type} {x : Session S α} {f : α → Session S β} {s after : S}

/-- Sequencing of computations that cannot fail. -/
theorem run_bind_of_eq {x : StateM S α} {f : α → StateM S β} {a : α} (h : x.run s = (a, after)) :
    (x >>= f).run s = (f a).run after := by
  rw [StateT.run_bind, h]
  rfl

theorem run_bind_of_ok {a : α} (h : x.run.run s = (.ok a, after)) :
    (x >>= f).run.run s = (f a).run.run after := by
  rw [ExceptT.run_bind, StateT.run_bind, h]
  rfl

theorem run_bind_of_error {e : Error} (h : x.run.run s = (.error e, after)) :
    (x >>= f).run.run s = (.error e, after) := by
  rw [ExceptT.run_bind, StateT.run_bind, h]
  rfl

/-- Two computations that leave the state as it is, one after the other. -/
theorem run_both {γ : Type} {y : Session S β} {g : α → β → γ} {a : Except Error α}
    {b : Except Error β} (hx : x.run.run s = (a, s)) (hy : y.run.run s = (b, s)) :
    (do let u ← x; return g u (← y) : Session S γ).run.run s =
      (do let u ← a; return g u (← b), s) := by
  cases a with
  | error e => exact run_bind_of_error hx
  | ok u =>
    refine (run_bind_of_ok hx).trans ?_
    cases b with
    | error e => exact run_bind_of_error hy
    | ok v => exact run_bind_of_ok hy

end Session

/-- A result that is there already, as a computation that does nothing else. -/
def Session.ofExcept {S α : Type} (result : Except Error α) : Session S α :=
  ExceptT.mk (pure result)

/-- Makes a request. -/
def Driver.ask {S P L C : Type} (d : Driver S P L C) (r : Request P L) : Session S (r.Reply C) :=
  ExceptT.mk fun s => d.answer r s

end StoredRoutine
