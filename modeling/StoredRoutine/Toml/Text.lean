import StoredRoutine.Toml.Reader

/-!
# Blanks, comments and strings of TOML

There are four ways to write a string: between double quotes, where a backslash escapes, or
between single quotes, where it does not, and either on one line or, between triple quotes, on
several. Line ends inside a string count as a line feed, whichever way they are written.
-/

namespace StoredRoutine.Toml

open Reader

/-! ## Blanks and comments -/

/-- Characters that may stand in a comment: everything but controls, and the tab. -/
def isPlain (c : Char) : Bool :=
  c == '\t' || (0x20 ≤ c.toNat && c.toNat ≠ 0x7F)

/-- The blanks within a line. -/
def isSpace (c : Char) : Bool := c == ' ' || c == '\t'

/-- Takes the blanks in front. -/
def spaces : Reader Unit := do
  let _ ← span isSpace

/-- Takes the end of a line. A carriage return alone does not end one. -/
def newline : Reader Unit := char '\n' <|> literal "\r\n"

/-- Takes a comment, without the end of its line. -/
def comment : Reader Unit := do
  char '#'
  let _ ← span isPlain

/-- Takes what may follow on a line that says something, with the end of the line. -/
def lineEnd : Reader Unit := do
  spaces
  let _ ← optional comment
  newline <|> atEnd

/-- Takes blanks, ends of lines, and comments with theirs. -/
def spacesAndLines : Reader Unit := do
  let _ ← many ((do let _ ← one isSpace) <|> newline <|> (comment *> newline))

/-! ## Escapes -/

/-- The value of a hexadecimal digit. -/
def hexValue? (c : Char) : Option Nat :=
  if c.isDigit then some (c.toNat - '0'.toNat)
  else if 'a' ≤ c ∧ c ≤ 'f' then some (c.toNat - 'a'.toNat + 10)
  else if 'A' ≤ c ∧ c ≤ 'F' then some (c.toNat - 'A'.toNat + 10)
  else none

/-- Takes the code of a character in the given number of hexadecimal digits. -/
def codePoint (count : Nat) : Reader Char := fun s => do
  let front := s.take count
  if front.length ≠ count then none
  let values ← front.mapM hexValue?
  let code := values.foldl (fun n v => 16 * n + v) 0
  if code.isValidChar then return (Char.ofNat code, s.drop count) else none

/-- Takes an escape sequence, and gives the character it stands for. -/
def escaped : Reader Char := do
  char '\\'
  match ← one (fun _ => true) with
  | 'b' => return '\x08'
  | 't' => return '\t'
  | 'n' => return '\n'
  | 'f' => return '\x0c'
  | 'r' => return '\r'
  | '"' => return '"'
  | '\\' => return '\\'
  | 'u' => codePoint 4
  | 'U' => codePoint 8
  | _ => failure

/-! ## Strings -/

/-- Takes a character that stands for itself between double quotes. -/
def unescaped : Reader Char := one fun c => isPlain c && c ≠ '"' && c ≠ '\\'

/-- Takes a character that stands for itself between single quotes. -/
def unquoted : Reader Char := one fun c => isPlain c && c ≠ '\''

/-- Takes a string on one line between double quotes. -/
def basicString : Reader (List Char) := do
  char '"'
  let content ← many (unescaped <|> escaped)
  char '"'
  return content

/-- Takes a string on one line between single quotes. -/
def literalString : Reader (List Char) := do
  char '\''
  let content ← many unquoted
  char '\''
  return content

/-- Takes one or two quotes that do not end a string between triple quotes. -/
def looseQuotes (quote : Char) : Reader (List Char) := fun s =>
  let quotes := s.takeWhile (· == quote)
  let rest := s.drop quotes.length
  if quotes.isEmpty ∨ 2 < quotes.length ∨ rest.isEmpty then none else some (quotes, rest)

/-- Takes the end of a string between triple quotes. Up to two more quotes in front of it belong
to the string. -/
def closingQuotes (quote : Char) : Reader (List Char) := fun s =>
  let quotes := s.takeWhile (· == quote)
  if 3 ≤ quotes.length ∧ quotes.length ≤ 5 then
    some (quotes.drop 3, s.drop quotes.length)
  else none

/-- Takes a string between triple quotes, given how to take a part of its content. An end of
line right after the opening quotes does not count. -/
def multiline (quote : Char) (content : Reader (List Char)) : Reader (List Char) := do
  char quote
  char quote
  char quote
  let _ ← optional newline
  let parts ← many (content <|> (do newline; return ['\n']) <|> looseQuotes quote)
  let last ← closingQuotes quote
  return parts.flatten ++ last

/-- Takes a backslash at the end of a line, with all blanks and ends of lines that follow. It
stands for nothing. -/
def continuation : Reader (List Char) := do
  char '\\'
  spaces
  newline
  let _ ← many ((do let _ ← one isSpace) <|> newline)
  return []

/-- Takes a string between triple double quotes. -/
def multilineBasicString : Reader (List Char) :=
  multiline '"' ((do return [← unescaped]) <|> continuation <|> (do return [← escaped]))

/-- Takes a string between triple single quotes. -/
def multilineLiteralString : Reader (List Char) :=
  multiline '\'' (do return [← unquoted])

/-- Takes a string. -/
def string : Reader (List Char) :=
  multilineBasicString <|> basicString <|> multilineLiteralString <|> literalString

/-! ## Keys -/

/-- Characters of keys without quotes. -/
def isKeyChar (c : Char) : Bool := c.isAlphanum || c == '-' || c == '_'

/-- Takes a key without dots. -/
def simpleKey : Reader String := do
  let key ← basicString <|> literalString <|> (do
    let key ← span isKeyChar
    if key.isEmpty then failure else return key)
  return String.ofList key

/-- How many values may stand inside one another, and how many keys in a path: one less than
this. -/
def depthLimit : Nat := 80

/-- Takes a dotted key, and gives its last part apart from the others. -/
def dottedKey : Reader (List String × String) := do
  let keys ← separated (char '.') (spaces *> simpleKey <* spaces)
  match keys.getLast? with
  | none => failure
  | some last => if keys.length < depthLimit then return (keys.dropLast, last) else failure

end StoredRoutine.Toml
