/-!
# Blank characters

Which characters separate words, and the operations that only need to know that: trimming a
text at either end and cutting it into its blank-separated words.

Texts are worked on as `List Char`; the records of the library hold `String`.
-/

namespace StoredRoutine.Text

/-- The characters with Unicode's `White_Space` property: the controls from tab to carriage
return, the space, next line, the no-break space and the spaces and separators of the
punctuation blocks. -/
def isBlank (c : Char) : Bool :=
  let n := c.toNat
  (9 ≤ n && n ≤ 13) || n == 0x20 || n == 0x85 || n == 0xA0 || n == 0x1680
    || (0x2000 ≤ n && n ≤ 0x200A) || n == 0x2028 || n == 0x2029 || n == 0x202F || n == 0x205F
    || n == 0x3000

/-- The text without the blanks it begins with. -/
def trimStart (s : List Char) : List Char := s.dropWhile isBlank

/-- The text without the blanks it ends in. -/
def trimEnd (s : List Char) : List Char := (trimStart s.reverse).reverse

/-- The text without the blanks at either end. -/
def trim (s : List Char) : List Char := trimEnd (trimStart s)

/-- Does the text hold blanks only? -/
def isBlankText (s : List Char) : Bool := s.all isBlank

/-- The maximal runs of characters that are not blank, in order. -/
def blankWords : List Char → List (List Char)
  | [] => []
  | c :: rest =>
    if isBlank c then blankWords rest
    else match rest, blankWords rest with
      | d :: _, word :: words => if isBlank d then [c] :: word :: words else (c :: word) :: words
      | _, words => [c] :: words

end StoredRoutine.Text
