/-!
# Readers of text

A `Reader` takes something off the front of a text, or fails. Of two readers joined by `<|>` the
second is tried on the same text if the first fails.
-/

namespace StoredRoutine.Toml

/-- Takes something off the front of a text. -/
abbrev Reader := StateT (List Char) Option

namespace Reader

variable {α : Type}

/-- Takes one character that passes the test. -/
def one (test : Char → Bool) : Reader Char := fun
  | [] => none
  | c :: rest => if test c then some (c, rest) else none

/-- Takes the given character. -/
def char (c : Char) : Reader Unit := do
  let _ ← one (· == c)

/-- Takes the given text. -/
def literal (text : String) : Reader Unit := fun s =>
  if text.toList.isPrefixOf s then some ((), s.drop text.length) else none

/-- Takes the characters in front that pass the test. -/
def span (test : Char → Bool) : Reader (List Char) := fun s =>
  some (s.takeWhile test, s.dropWhile test)

/-- Takes what comes off as often as it does; a reader that takes nothing is not repeated. -/
def manyFrom (r : Reader α) (s : List Char) : List α × List Char :=
  match r s with
  | some (a, rest) =>
    if rest.length < s.length then
      let (others, last) := manyFrom r rest
      (a :: others, last)
    else ([], s)
  | none => ([], s)
termination_by s.length

/-- Takes what comes off as often as it does. -/
def many (r : Reader α) : Reader (List α) := fun s => some (manyFrom r s)

/-- Takes items with separators between them, of which there may be none. -/
def separated (separator : Reader Unit) (item : Reader α) : Reader (List α) := do
  match ← optional item with
  | none => return []
  | some first => return first :: (← many (separator *> item))

/-- Succeeds at the end of the text. -/
def atEnd : Reader Unit := fun
  | [] => some ((), [])
  | _ => none

/-- The text that a reader takes, in place of what it makes of it. -/
def recognized (r : Reader α) : Reader (List Char) := fun s =>
  (r s).map fun (_, rest) => (s.take (s.length - rest.length), rest)

/-- Takes a given number of digits, and gives their number. -/
def digits (count : Nat) : Reader Nat := fun s =>
  let front := s.take count
  if front.length = count ∧ front.all Char.isDigit then
    some (front.foldl (fun n c => 10 * n + (c.toNat - '0'.toNat)) 0, s.drop count)
  else none

end Reader

end StoredRoutine.Toml
