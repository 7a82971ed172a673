import StoredRoutine.Error
import StoredRoutine.Value

/-!
# Rows of a cursor

A result set is read forward only, one row at a time, and may fail at any of them. `Rows` reads
it for a caller who need not care for its end: once the result set has reported that, or an
error, it is let go, and every further step yields nothing without asking it again.
-/

namespace StoredRoutine

/-- Result sets: a row, or nothing at the end, and what is left after it. -/
class ResultSet (C : Type) where
  nextRow : C → Except Error (Option Row) × C

/-- The rows still to be read from a result set; none, once it has been let go. -/
structure Rows (C : Type) where
  cursor : Option C
  deriving Repr

namespace Rows

variable {C : Type}

/-- The rows of an open result set. -/
def ofCursor (cursor : C) : Rows C := ⟨some cursor⟩

/-- Has the result set been let go? -/
def isExhausted (rows : Rows C) : Bool := rows.cursor.isNone

/-- The next row, or the error in its place, and the rows after it, where `ask` asks the result set.
One that has been let go is not asked. -/
def nextBy {m : Type → Type} [Monad m] (ask : C → m (Except Error (Option Row) × C))
    (rows : Rows C) : m (Option (Except Error Row) × Rows C) :=
  match rows.cursor with
  | none => pure (none, rows)
  | some cursor => do
    match ← ask cursor with
    | (.ok (some row), rest) => return (some (.ok row), ⟨some rest⟩)
    | (.ok none, _) => return (none, ⟨none⟩)
    | (.error e, _) => return (some (.error e), ⟨none⟩)

/-- What the next `n` steps yield, and the rows after them. -/
def takeBy {m : Type → Type} [Monad m] (ask : C → m (Except Error (Option Row) × C))
    (rows : Rows C) : Nat → m (List (Option (Except Error Row)) × Rows C)
  | 0 => return ([], rows)
  | n + 1 => do
    let (item, rest) ← rows.nextBy ask
    let (items, last) ← rest.takeBy ask n
    return (item :: items, last)

variable [ResultSet C]

/-- The next row of a result set that does nothing but answer. -/
def next (rows : Rows C) : Option (Except Error Row) × Rows C :=
  Id.run (rows.nextBy fun cursor => pure (ResultSet.nextRow cursor))

/-- The next `n` steps on a result set that does nothing but answer. -/
def take (rows : Rows C) (n : Nat) : List (Option (Except Error Row)) × Rows C :=
  Id.run (rows.takeBy (fun cursor => pure (ResultSet.nextRow cursor)) n)

end Rows

end StoredRoutine
