import StoredRoutine.Text.Word
import StoredRoutine.Source.Statement

/-!
# The header of a package

A specification begins with `[create [or replace]] package NAME`. The name may be qualified by a
schema and quoted; both are dropped.
-/

namespace StoredRoutine.Source

/-- The first word after the keyword `package`. -/
def wordAfterPackage? : List (Nat × List Char) → Option (Nat × List Char)
  | [] => none
  | (_, word) :: rest =>
    if Text.sameLetters word "package".toList then rest.head? else wordAfterPackage? rest

/-- What follows the last full stop of the text, or all of it. -/
def afterLastDot (s : List Char) : List Char :=
  (s.reverse.takeWhile (· ≠ '.')).reverse

/-- The text without the double quotes at either end. -/
def trimQuotes (s : List Char) : List Char :=
  ((s.dropWhile (· = '"')).reverse.dropWhile (· = '"')).reverse

/-- The name that the header of a specification declares. There is none if the first statement
is no header, or is the header of a package body. -/
def packageName? (source : String) : Option String := do
  let header ← (statements source.toList).head?
  let (i, _) ← wordAfterPackage? (Text.words header.text)
  let qualified := (header.text.drop i).takeWhile fun c =>
    !Text.isBlank c && c ≠ '(' && c ≠ ';'
  let name := trimQuotes (afterLastDot qualified)
  if name.isEmpty || Text.sameLetters name "body".toList then none else some (String.ofList name)

end StoredRoutine.Source
