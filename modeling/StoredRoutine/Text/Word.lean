import StoredRoutine.Text.Nesting

/-!
# Words

The words of a normalized text are its maximal runs of word characters and its quoted
identifiers, each of the latter with its quotes and as one word whatever it holds. String
literals are passed over.
-/

namespace StoredRoutine.Text

/-- How many characters a quoted section has after its opening quote, its closing quote
included. A doubled quote does not close the section. -/
def quotedLength (quote : Char) : List Char → Nat
  | [] => 0
  | [_] => 1
  | c :: d :: rest =>
    if c ≠ quote then 1 + quotedLength quote (d :: rest)
    else if d = quote then 2 + quotedLength quote rest
    else 1

theorem length_dropWhile_le (p : Char → Bool) (s : List Char) :
    (s.dropWhile p).length ≤ s.length :=
  (List.dropWhile_sublist p).length_le

/-- The words of `s`, each with its place, where `i` is the place of the first character. -/
def wordsFrom (i : Nat) (s : List Char) : List (Nat × List Char) :=
  match s with
  | [] => []
  | c :: rest =>
    if isQuote c then
      let n := quotedLength c rest
      let others := wordsFrom (i + (n + 1)) (rest.drop n)
      if c = '"' then (i, c :: rest.take n) :: others else others
    else if isWordChar c then
      let tail := rest.takeWhile isWordChar
      (i, c :: tail) :: wordsFrom (i + (tail.length + 1)) (rest.dropWhile isWordChar)
    else wordsFrom (i + 1) rest
termination_by s.length
decreasing_by
  all_goals simp only [List.length_cons, List.length_drop]
  · omega
  · exact Nat.lt_succ_of_le (length_dropWhile_le _ _)
  · omega

/-- The words of the text, each with the number of characters before it. -/
def words (s : List Char) : List (Nat × List Char) := wordsFrom 0 s

end StoredRoutine.Text
