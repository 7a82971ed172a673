import StoredRoutine.Decimal.Binary64
import StoredRoutine.Text.AsciiCase

/-!
# Values and rows

What is passed into a routine and read back from it, and the rows of a result set.
-/

namespace StoredRoutine

/-- A value of the database. -/
inductive Value where
  | null
  | int (n : Int64)
  | float (x : Binary64)
  | text (s : String)
  | bytes (b : List UInt8)
  deriving DecidableEq, Repr

namespace Value

/-- Is there no value? -/
def isNull : Value → Bool
  | null => true
  | _ => false

/-- The number, if the value is an integer. -/
def asInt? : Value → Option Int64
  | int n => some n
  | _ => none

/-- The text, if the value is one. -/
def asText? : Value → Option String
  | text s => some s
  | _ => none

/-- The bytes, if the value is made of bytes. -/
def asBytes? : Value → Option (List UInt8)
  | bytes b => some b
  | _ => none

/-- The name of the kind of value in messages. -/
def kindName : Value → String
  | null => "null"
  | int _ => "int"
  | float _ => "float"
  | text _ => "text"
  | bytes _ => "bytes"

/-- The value as it is shown: texts in quotes, and of bytes only their number. -/
def render : Value → String
  | null => "null"
  | int n => Int.repr n.toInt
  | float x => x.text
  | text s => "'" ++ s ++ "'"
  | bytes b => "<" ++ Nat.repr b.length ++ " bytes>"

end Value

/-- A row of a result set: its columns in order, each with its name. -/
structure Row where
  columns : List (String × Value)
  deriving DecidableEq, Repr

namespace Row

/-- The value of the first column of the name, which is compared without regard to case. -/
def get? (row : Row) (name : String) : Option Value :=
  (row.columns.find? fun (column, _) => sameName column name).map (·.2)

/-- The number of columns. -/
def size (row : Row) : Nat := row.columns.length

/-- Has the row no columns? -/
def isEmpty (row : Row) : Bool := row.columns.isEmpty

end Row

end StoredRoutine
