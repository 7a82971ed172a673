import StoredRoutine.Toml.Basic
import StoredRoutine.Toml.Number

/-!
# Reading a TOML document

Values are read by recursion on how many of them may still be opened inside one another; a
document is read line by line, and its lines are then put together.
-/

namespace StoredRoutine.Toml

open Reader

/-! ## Values -/

/-- Takes the items of an array and its closing bracket. -/
def arrayItems (value : Reader Value) : Reader (List Value) := do
  let items ← separated (char ',') (spacesAndLines *> value <* spacesAndLines)
  if !items.isEmpty then
    let _ ← optional (char ',')
  spacesAndLines
  char ']'
  return items

/-- Takes the entries of a table written as a value, and its closing brace. -/
def tablePairs (value : Reader Value) : Reader (List ((List String × String) × Value)) := do
  let pairs ← separated (char ',') do
    let key ← dottedKey
    char '='
    return (key, ← spaces *> value <* spaces)
  spaces
  char '}'
  return pairs

/-- Takes a value in which at most `levels` more arrays and tables are open at any time. -/
def value (levels : Nat) : Reader Value :=
  (do return .string (String.ofList (← string)))
    <|> (do return .datetime (← recognized datetime))
    <|> (do return .float (← recognized (finiteFloat <|> specialFloat)))
    <|> (do return .integer (← integer))
    <|> (do literal "true"; return .boolean true)
    <|> (do literal "false"; return .boolean false)
    <|> match levels with
      | 0 => failure
      | levels + 1 =>
        (do
          char '['
          return .array false (← arrayItems (value levels)))
        <|> (do
          char '{'
          let some entries := inlineEntries (← tablePairs (value levels)) | failure
          return .table .inline entries)

/-! ## Lines -/

/-- Takes a line, with the blanks in front of the next one. -/
def line : Reader Line := do
  let line ← (do newline; return Line.blank)
    <|> (do comment; newline <|> atEnd; return Line.blank)
    <|> (do
      literal "[["
      let (path, key) ← dottedKey
      literal "]]"
      lineEnd
      return Line.element path key)
    <|> (do
      char '['
      let (path, key) ← dottedKey
      char ']'
      lineEnd
      return Line.table path key)
    <|> (do
      let (path, key) ← dottedKey
      char '='
      spaces
      let value ← value (depthLimit - 1)
      lineEnd
      return Line.entry path key value)
  spaces
  return line

/-- Takes all the lines of a document. A byte order mark may stand in front. -/
def lines : Reader (List Line) := do
  let _ ← optional (char '\uFEFF')
  spaces
  let lines ← many line
  atEnd
  return lines

/-- The entries of a document, or nothing if it is not valid. -/
def parse? (text : String) : Option Entries := do
  let (lines, _) ← lines text.toList
  assemble lines

end StoredRoutine.Toml
