import StoredRoutine.Driver.Basic
import StoredRoutine.Driver.Rows
import StoredRoutine.Text.UpperCase

/-!
# A driver in memory

A session without a database, in which routines are functions of the contents of their
arguments. Placeholders are numbered slots. What a slot holds is shaped after the family it was
allocated for, so that large objects come back through locators and cursors as result sets.

Routines are found by their names in capitals, so letter case does not matter in a call.
-/

namespace StoredRoutine

/-- What a slot, or an argument of a routine, holds. -/
inductive Stored where
  /-- a plain value -/
  | value (v : Value)
  /-- the content of a large object -/
  | lob (v : Value)
  /-- the rows of a result set -/
  | rows (rows : List Row)
  deriving DecidableEq, Repr

namespace Stored

/-- The value held; rows are none. -/
def value? : Stored → Option Value
  | value v | lob v => some v
  | rows _ => none

/-- What a new slot for a type of the family holds. -/
def emptyFor : Family → Stored
  | .scalar => value .null
  | .largeObject => lob .null
  | .cursor => rows []

/-- What a slot holds after something is stored in it. A large object that is given a plain value
stays a large object. -/
def store : Stored → Stored → Stored
  | lob _, value v => lob v
  | _, new => new

end Stored

namespace Memory

/-- The body of a routine: from the contents of the arguments it makes what they hold
afterwards, and the result. It is a function of these contents alone: a body that keeps a state of
its own from one call to the next is none. -/
abbrev Body :=
  (arguments : List Stored) →
    Except Error ({ left : List Stored // left.length = arguments.length } × Stored)

/-- A routine of the session. What the body of a procedure gives as a result is dropped. -/
inductive Routine where
  | procedure (body : Body)
  | function (body : Body)

end Memory

/-- The state of a session in memory. -/
structure Memory where
  /-- the routines, by their names in capitals -/
  routines : List (String × Memory.Routine)
  /-- the slots that are in use -/
  slots : List (Nat × Stored)
  /-- the number of the next slot -/
  nextSlot : Nat
  /-- the names of the routines that were called, in the order of the calls -/
  calls : List String

namespace Memory

/-- A session without routines. -/
def empty : Memory := ⟨[], [], 0, []⟩

/-- The name in capitals. -/
def key (name : String) : String := String.ofList (Text.upper name.toList)

/-- The session with a routine added. It takes the place of one of the same name. -/
def register (m : Memory) (name : String) (routine : Routine) : Memory :=
  { m with routines := (key name, routine) :: m.routines }

/-- The number of slots in use. -/
def openSlots (m : Memory) : Nat := m.slots.length

/-! ## Slots and routines -/

/-- A slot that is not in use was asked for. -/
def invalidSlot (slot : Nat) : Error :=
  .ofCause (.driver ("invalid placeholder " ++ Nat.repr slot))

/-- What a slot holds. -/
def fetch (slot : Nat) : Session Memory Stored := do
  match (← get).slots.lookup slot with
  | some stored => return stored
  | none => throw (invalidSlot slot)

/-- Stores something in a slot. -/
def store (slot : Nat) (new : Stored) : Session Memory Unit := do
  let old ← fetch slot
  modify fun m => { m with
    slots := m.slots.map fun (k, s) => if k = slot then (k, old.store new) else (k, s) }

/-- The routine of a name. -/
def routine (name : String) : Session Memory Routine := do
  match (← get).routines.lookup (key name) with
  | some r => return r
  | none => throw (.ofCause (.driver ("identifier '" ++ name ++ "' must be declared")))

/-- The content that a bind passes. -/
def argument : Bind Nat → Session Memory Stored
  | .value v => return .value v
  | .placeholder slot => fetch slot

/-- Stores what the arguments hold after a call in the slots that were bound to them. -/
def writeBack : List (Bind Nat) → List Stored → Session Memory Unit
  | .placeholder slot :: binds, stored :: left => do
    store slot stored
    writeBack binds left
  | .value _ :: binds, _ :: left => writeBack binds left
  | _, _ => return

/-- Notes that a routine was called. -/
def record (name : String) : Session Memory Unit :=
  modify fun m => { m with calls := m.calls ++ [name] }

/-! ## Calls -/

/-- Calls a procedure. An error of its body is an error of the call. -/
def callProcedure (name : String) (binds : List (Bind Nat)) : Session Memory Unit := do
  let arguments ← binds.mapM argument
  match ← routine name with
  | .function _ => throw (.ofCause (.driver ("'" ++ name ++ "' is not a procedure")))
  | .procedure body =>
    let (left, _) ← Session.ofExcept (body arguments)
    record name
    writeBack binds left

/-- Calls a function, and stores its result in a slot before its arguments are. -/
def callFunction (name : String) (returns : Nat) (binds : List (Bind Nat)) :
    Session Memory Unit := do
  let arguments ← binds.mapM argument
  match ← routine name with
  | .procedure _ => throw (.ofCause (.driver ("'" ++ name ++ "' is not a function")))
  | .function body =>
    let (left, result) ← Session.ofExcept (body arguments)
    record name
    store returns result
    writeBack binds left

/-! ## The driver -/

/-- A result set over rows that were there when it was opened. -/
structure Cursor where
  rows : List Row
  deriving DecidableEq, Repr

instance : ResultSet Cursor where
  nextRow
    | ⟨[]⟩ => (.ok none, ⟨[]⟩)
    | ⟨row :: rest⟩ => (.ok (some row), ⟨rest⟩)

/-- Puts a new slot into use. -/
def allocate (family : Family) : Session Memory Nat := do
  let m ← get
  set { m with
    slots := m.slots ++ [(m.nextSlot, Stored.emptyFor family)], nextSlot := m.nextSlot + 1 }
  return m.nextSlot

/-- What is found in a slot. The locator of a large object is its content. -/
def read (slot : Nat) : Session Memory (Fetched Value Cursor) := do
  match ← fetch slot with
  | .value v => return .value v
  | .lob v => return .locator v
  | .rows rows => return .cursor ⟨rows⟩

/-- Takes a slot out of use. -/
def release (slot : Nat) : Session Memory Unit := do
  let _ ← fetch slot
  modify fun m => { m with slots := m.slots.filter fun (k, _) => k ≠ slot }

/-- The driver of a session in memory. Its calls leave every bind as it is. -/
def driver : Driver Memory Nat Value Cursor where
  answer
    | .allocate _ family, m => (allocate family).run m
    | .seed slot v, m => (store slot (.value v)).run m
    | .callProcedure name binds, m =>
      ((fun _ => ⟨binds, rfl⟩) <$> callProcedure name binds : Session Memory _).run m
    | .callFunction name returns binds, m =>
      ((fun _ => ⟨binds, rfl⟩) <$> callFunction name returns binds : Session Memory _).run m
    | .read slot, m => (read slot).run m
    | .materialize v, m => (.ok v, m)
    | .release slot, m => (release slot).run m

end Memory

end StoredRoutine
