import StoredRoutine.CallModel
import StoredRoutine.Driver.Basic
import StoredRoutine.Driver.Rows

/-!
# Executing a call

`execute` carries out a call model on a driver: it prepares a bind for every argument, calls the
routine once, and extracts the returned value and the outputs in the order of the declaration.

Whatever happens on the way, the placeholders that were allocated are released at the end: the
one for the returned value first, then those of the arguments in order, up to the first that
cannot be released. An error of the call itself comes before one of its clean-up.
-/

namespace StoredRoutine

/-! ## Outcomes -/

/-- One result of a call. -/
inductive Output (C : Type) where
  | value (v : Value)
  | rows (rows : Rows C)

/-- The result of a call: what a function returns, and the `out` and `in out` arguments with
their names, in the order of the declaration. -/
structure Outcome (C : Type) where
  returnValue : Option (Output C)
  outputs : List (String × Output C)

namespace Outcome

variable {C : Type}

/-- The number of values in the result. -/
def arity (o : Outcome C) : Nat := o.returnValue.toList.length + o.outputs.length

/-- The first output of the name, which is compared without regard to case. -/
def get? (o : Outcome C) (name : String) : Option (Output C) :=
  (o.outputs.find? fun (n, _) => sameName n name).map (·.2)

/-- The values of the result in order: what is returned, then the outputs. -/
def values (o : Outcome C) : List (Output C) := o.returnValue.toList ++ o.outputs.map (·.2)

end Outcome

namespace Driver

variable {S P L C : Type} (d : Driver S P L C)

/-! ## Prepare -/

/-- Prepares the bind for an argument. A placeholder that cannot be seeded is released again; if
not even that succeeds, it is the error that counts. -/
def prepare (b : Binding) (input : Value) : Session S (Bind P) := do
  match b.strategy.prepare with
  | .passValue => return .value input
  | .allocate => return .placeholder (← d.ask (.allocate b.token b.family))
  | .allocateAndSeed =>
    let p ← d.ask (.allocate b.token b.family)
    tryCatch (d.ask (.seed p input)) fun e => do
      d.ask (.release p)
      throw e
    return .placeholder p

/-- Prepares the binds for the arguments, each that takes an input being given the next one.
The binds that were prepared are there even if one could not be; the error is beside them. -/
def prepareAll : List Binding → List Value → StateM S (List (Bind P) × Except Error Unit)
  | [], _ => return ([], .ok ())
  | b :: bs, inputs => do
    let (input, others) :=
      if b.takesInput then (inputs.head?.getD .null, inputs.tail) else (.null, inputs)
    match ← (d.prepare b input).run with
    | .error e => return ([], .error e)
    | .ok bind =>
      let (binds, result) ← prepareAll bs others
      return (bind :: binds, result)

/-! ## Extract -/

/-- Turns what a placeholder holds into an output. What it holds has to suit the family: a value
for a scalar, a locator for a large object, or a null in its place, and a cursor for a
cursor. -/
def extract (b : Binding) (p : P) : Session S (Output C) := do
  match b.strategy.extract, ← d.ask (.read p) with
  | .readValue, .value v => return .value v
  | .materialize, .value .null => return .value .null
  | .materialize, .locator l => return .value (← d.ask (.materialize l))
  | .wrapRows, .cursor c => return .rows (.ofCursor c)
  | _, found => throw (.ofCause (.protocolMismatch b.name b.family found.kindName))

/-- Extracts the outputs among the arguments, each from its bind. A bind in whose place the
driver left a plain value cannot be extracted. -/
def extractAll : List (Binding × Bind P) → Session S (List (String × Output C))
  | [] => return []
  | (b, bind) :: rest => do
    if b.strategy.extract = .nothing then extractAll rest
    else
      let .placeholder p := bind
        | throw (.ofCause (.protocolMismatch b.name b.family "value"))
      let output ← d.extract b p
      return (b.name, output) :: (← extractAll rest)

/-! ## Call -/

/-- Calls the routine with the binds and extracts its results. Beside the outcome are the
placeholders that are left to be released. -/
def invoke (m : CallModel) (binds : List (Bind P)) :
    StateM S (Except Error (Outcome C) × List P) := do
  match m.returnValue with
  | none =>
    match ← (d.ask (.callProcedure m.name binds)).run with
    | .error e => return (.error e, binds.filterMap (·.placeholder?))
    | .ok ⟨left, _⟩ =>
      let outputs ← (d.extractAll (m.arguments.zip left)).run
      return (outputs.map (⟨none, ·⟩), left.filterMap (·.placeholder?))
  | some returned =>
    match ← (d.ask (.allocate returned.token returned.family)).run with
    | .error e => return (.error e, binds.filterMap (·.placeholder?))
    | .ok p =>
      match ← (d.ask (.callFunction m.name p binds)).run with
      | .error e => return (.error e, p :: binds.filterMap (·.placeholder?))
      | .ok ⟨left, _⟩ =>
        let outcome ← ExceptT.run do
          let value ← d.extract returned p
          return ⟨some value, ← d.extractAll (m.arguments.zip left)⟩
        return (outcome, p :: left.filterMap (·.placeholder?))

/-- Releases the placeholders in order, up to the first that cannot be released. -/
def releaseAll : List P → Session S Unit
  | [] => return
  | p :: rest => do
    d.ask (.release p)
    releaseAll rest

/-- Prepares, invokes and extracts. Beside the outcome are the placeholders that are left to be
released, however far the call came. -/
def call (m : CallModel) (inputs : List Value) :
    StateM S (Except Error (Outcome C) × List P) := do
  let (binds, prepared) ← d.prepareAll m.arguments inputs
  match prepared with
  | .error e => return (.error e, binds.filterMap (·.placeholder?))
  | .ok () => d.invoke m binds

/-- Calls the routine of the model with one input for each `in` and `in out` argument, in the
order of the declaration. The input for an `in out` cursor is not used. -/
def execute (m : CallModel) (inputs : List Value) : Session S (Outcome C) := ExceptT.mk do
  if inputs.length ≠ m.inputArity then
    return .error (.ofCause (.arityMismatch m.inputArity inputs.length))
  let (outcome, held) ← d.call m inputs
  let released ← (d.releaseAll held).run
  return do
    let outcome ← outcome
    released
    return outcome

theorem run_execute {m : CallModel} {inputs : List Value} (h : inputs.length = m.inputArity) :
    (d.execute m inputs).run = do
      let (outcome, held) ← d.call m inputs
      let released ← (d.releaseAll held).run
      return do
        let outcome ← outcome
        released
        return outcome := by
  unfold execute
  rw [if_neg (not_not_intro h)]
  rfl

theorem run_execute_of_ne {m : CallModel} {inputs : List Value}
    (h : inputs.length ≠ m.inputArity) :
    (d.execute m inputs).run =
      pure (.error (.ofCause (.arityMismatch m.inputArity inputs.length))) := by
  unfold execute
  rw [if_pos h]
  rfl

end Driver

end StoredRoutine
