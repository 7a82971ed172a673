import StoredRoutine.Document.Basic

/-!
# Documents in JSON

JSON with every item and every field on a line of its own, indented by two spaces for each list
or object it is in. Lists and objects without anything in them take no line.

In strings only what has to be escaped is: quotes, backslashes and control characters.
-/

namespace StoredRoutine.Document.Json

/-! ## Strings -/

/-- A hexadecimal digit. -/
def hexDigit (n : Nat) : Char :=
  if n < 10 then Char.ofNat ('0'.toNat + n) else Char.ofNat ('a'.toNat + (n - 10))

/-- A character as it is written in a string. -/
def escape (c : Char) : List Char :=
  if c = '"' then ['\\', '"']
  else if c = '\\' then ['\\', '\\']
  else if c = '\x08' then ['\\', 'b']
  else if c = '\x0c' then ['\\', 'f']
  else if c = '\n' then ['\\', 'n']
  else if c = '\r' then ['\\', 'r']
  else if c = '\t' then ['\\', 't']
  else if c.toNat < 0x20 then
    ['\\', 'u', '0', '0', hexDigit (c.toNat / 16), hexDigit (c.toNat % 16)]
  else [c]

/-- A string in its quotes. -/
def quote (s : String) : List Char := '"' :: s.toList.flatMap escape ++ ['"']

/-! ## Trees -/

/-- The end of a line, and the spaces in front of the next one. -/
def newline (indent : Nat) : List Char := '\n' :: List.replicate (2 * indent) ' '

mutual

/-- A tree, inside of `indent` lists and objects. -/
def print (indent : Nat) : Document → List Char
  | .null => "null".toList
  | .bool true => "true".toList
  | .bool false => "false".toList
  | .nat n => Nat.toDigits 10 n
  | .string s => quote s
  | .list [] => ['[', ']']
  | .list (item :: items) =>
    '[' :: newline (indent + 1) ++ print (indent + 1) item ++ printItems (indent + 1) items
      ++ newline indent ++ [']']
  | .object [] => ['{', '}']
  | .object ((name, value) :: fields) =>
    '{' :: newline (indent + 1) ++ quote name ++ [':', ' '] ++ print (indent + 1) value
      ++ printFields (indent + 1) fields ++ newline indent ++ ['}']

/-- The items of a list after the first. -/
def printItems (indent : Nat) : List Document → List Char
  | [] => []
  | item :: items =>
    ',' :: newline indent ++ print indent item ++ printItems indent items

/-- The fields of an object after the first. -/
def printFields (indent : Nat) : List (String × Document) → List Char
  | [] => []
  | (name, value) :: fields =>
    ',' :: newline indent ++ quote name ++ [':', ' '] ++ print indent value
      ++ printFields indent fields

end

/-- The text of a document, which ends with its line. -/
def text (d : Document) : String := String.ofList (print 0 d ++ ['\n'])

end StoredRoutine.Document.Json
