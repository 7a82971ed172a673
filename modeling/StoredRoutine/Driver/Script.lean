import StoredRoutine.Driver.Memory

/-!
# Scripted routines

Bodies of routines for a session in memory, given by a list of actions on the arguments.
-/

namespace StoredRoutine.Memory

/-- One step of a scripted body. Arguments are counted from zero. -/
inductive Action where
  /-- The argument holds something else. -/
  | set (argument : Nat) (content : Stored)
  /-- The argument holds what another one does. -/
  | copy (argument source : Nat)
  /-- The argument holds its number plus `n`, modulo 2 ^ 64; what is no number counts as zero. -/
  | add (argument : Nat) (n : Int64)
  /-- The body ends with an error of the driver. -/
  | fail (problem : String)
  /-- The result is set. -/
  | result (content : Stored)
  /-- The result is what an argument holds. -/
  | resultOf (argument : Nat)
  /-- The result is one row with the values of the arguments. -/
  | echo
  deriving DecidableEq, Repr

/-- The row `ARG_0`, `ARG_1`, … of the values of the arguments. For rows there is a null. -/
def echoRow (arguments : List Stored) : Row :=
  ⟨arguments.zipIdx.map fun (stored, i) => ("ARG_" ++ Nat.repr i, stored.value?.getD .null)⟩

/-- Runs actions in order, given what the result has been set to so far. -/
def runActions (result : Stored) : List Action → Body
  | [], arguments => .ok (⟨arguments, rfl⟩, result)
  | .set i content :: rest, arguments => continueWith result rest (arguments.set i content) (by simp)
  | .copy i j :: rest, arguments =>
    continueWith result rest (arguments.set i (arguments[j]?.getD (.value .null))) (by simp)
  | .add i n :: rest, arguments =>
    let number := ((arguments[i]?.bind (·.value?)).bind (·.asInt?)).getD 0
    continueWith result rest (arguments.set i (.value (.int (number + n)))) (by simp)
  | .fail problem :: _, _ => .error (.ofCause (.driver problem))
  | .result content :: rest, arguments => runActions content rest arguments
  | .resultOf i :: rest, arguments =>
    runActions (arguments[i]?.getD (.value .null)) rest arguments
  | .echo :: rest, arguments => runActions (.rows [echoRow arguments]) rest arguments
where
  /-- Goes on with other contents of the same arguments. -/
  continueWith {arguments : List Stored} (result : Stored) (rest : List Action)
      (next : List Stored) (h : next.length = arguments.length) :
      Except Error ({ left : List Stored // left.length = arguments.length } × Stored) :=
    (runActions result rest next).map fun (left, r) => (⟨left, left.2.trans h⟩, r)

/-- The body that runs the actions. Its result is at first a null. -/
def scripted (actions : List Action) : Body := runActions (.value .null) actions

end StoredRoutine.Memory
