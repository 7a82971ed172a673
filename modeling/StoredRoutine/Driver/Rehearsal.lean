import StoredRoutine.Driver.Basic
import StoredRoutine.Driver.Rows

/-!
# Rehearsals

A driver that does as it is told and keeps a log of what it was asked for. It is told in advance
which requests to refuse, what its reads find, and which binds a call replaces.
-/

namespace StoredRoutine.Rehearsal

/-- What one pull at a cursor comes to. -/
inductive Pull where
  | row (row : Row)
  | finish
  | fail (problem : String)
  deriving DecidableEq, Repr

/-- A result set that yields the pulls in order, and after them nothing. -/
structure Cursor where
  pulls : List Pull
  deriving DecidableEq, Repr

instance : ResultSet Cursor where
  nextRow
    | ⟨[]⟩ => (.ok none, ⟨[]⟩)
    | ⟨.row row :: rest⟩ => (.ok (some row), ⟨rest⟩)
    | ⟨.finish :: rest⟩ => (.ok none, ⟨rest⟩)
    | ⟨.fail problem :: rest⟩ => (.error (.ofCause (.driver problem)), ⟨rest⟩)

/-- What the driver is told in advance. -/
structure Plan where
  /-- the requests to refuse, by their places in the log -/
  refused : List Nat
  /-- what the reads that succeed find, in order; after these a null -/
  reads : List (Fetched Value Cursor)
  /-- the positions whose binds a call replaces, and the values it puts there -/
  replaced : List (Nat × Value)

/-- What has happened so far: the requests, and how many allocations and reads succeeded. -/
structure Log where
  requests : List (Request Nat Value)
  allocations : Nat
  reads : Nat
  deriving DecidableEq, Repr

/-- Nothing has happened. -/
def Log.empty : Log := ⟨[], 0, 0⟩

/-- The error with which a request is refused. -/
def fault (index : Nat) : Error := .ofCause (.driver ("fault " ++ Nat.repr index))

/-- The binds after a call. -/
def replace (replaced : List (Nat × Value)) (binds : List (Bind Nat)) :
    { left : List (Bind Nat) // left.length = binds.length } :=
  match replaced with
  | [] => ⟨binds, rfl⟩
  | (i, v) :: rest =>
    let ⟨left, h⟩ := replace rest (binds.set i (.value v))
    ⟨left, by simpa using h⟩

/-- The reply to a request that is not refused. -/
def grant (plan : Plan) (log : Log) : (r : Request Nat Value) → r.Reply Cursor × Log
  | .allocate .. => (log.allocations, { log with allocations := log.allocations + 1 })
  | .seed .. | .release _ => ((), log)
  | .callProcedure _ binds | .callFunction _ _ binds => (replace plan.replaced binds, log)
  | .read _ =>
    (plan.reads[log.reads]?.getD (.value .null), { log with reads := log.reads + 1 })
  | .materialize v => (v, log)

/-- The driver that follows the plan. A request is logged whether it is refused or not. The
placeholders are numbered, and the locator of a large object is its content. -/
def driver (plan : Plan) : Driver Log Nat Value Cursor where
  answer r log :=
    let index := log.requests.length
    let log := { log with requests := log.requests ++ [r] }
    if index ∈ plan.refused then (.error (fault index), log)
    else
      let (reply, log) := grant plan log r
      (.ok reply, log)

end StoredRoutine.Rehearsal
